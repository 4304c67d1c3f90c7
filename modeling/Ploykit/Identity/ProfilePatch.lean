import Ploykit.Lib.Labelled
import Ploykit.Platform.Text

/-!
# Patches of the profile

`updateMe` of the identity handlers with `SessionService.UpdateProfile` below it, for the requests of one
active user. The read of the profile and the update of the row are one step each.
-/

namespace Ploykit.Identity.ProfilePatch

open Lib

structure Profile where
  displayName : String
  avatarURL : String
  deriving DecidableEq

/-- The body of a request. -/
structure Patch where
  DisplayName : Option String := none
  AvatarURL : Option String := none

def displayNameMaxLen : Nat := 100
def avatarURLMaxLen : Nat := 2048

/-- The name without spaces at its ends, and whether it has a good length. -/
def NormalizeDisplayName (raw : String) : String × Bool :=
  let t := Strings.trimSpace raw
  (t, 1 ≤ t.length && t.length ≤ displayNameMaxLen)

def AvatarURLOK (raw : String) : Bool :=
  let v := Strings.trimSpace raw
  v = "" || ((Strings.cutPrefix v "http://").isSome || (Strings.cutPrefix v "https://").isSome) && v.utf8ByteSize ≤ avatarURLMaxLen

/-- `SessionService.UpdateProfile` up to the update of the row. -/
def updateProfile (displayName avatarURL : String) : Option Profile :=
  if !(NormalizeDisplayName displayName).2 then none
  else if !AvatarURLOK (Strings.trimSpace avatarURL) then none
  else some ⟨(NormalizeDisplayName displayName).1, Strings.trimSpace avatarURL⟩

/-- The fields that are written, of the profile that was read. -/
def merge (p : Patch) (current : Profile) : Option Profile :=
  updateProfile (p.DisplayName.getD current.displayName) (p.AvatarURL.getD current.avatarURL)

inductive Phase where
  | merging (p : Patch) (current : Profile)
  | answered

structure State (R : Type) where
  profile : Profile
  requests : R → Option Phase := fun _ => none
  /-- The patches whose update was committed, in this order. -/
  committed : List Patch := []

inductive Event (R : Type) where
  | read (r : R) (p : Patch)
  | write (r : R)

namespace State

variable {R : Type} [DecidableEq R] (s : State R)

def put (r : R) (x : Phase) : State R := { s with requests := Function.update s.requests r (some x) }

/-- A patch that names no field is refused before the read, and a value that is not valid before the update. -/
def step : Event R → Option (State R)
  | .read r p =>
    if (s.requests r).isSome then none
    else if p.DisplayName = none ∧ p.AvatarURL = none then some (s.put r .answered)
    else some (s.put r (.merging p s.profile))
  | .write r =>
    match s.requests r with
    | some (.merging p current) =>
      match merge p current with
      | none => some (s.put r .answered)
      | some profile => some ({ s with profile, committed := s.committed ++ [p] }.put r .answered)
    | _ => none

end State

/-! ## What the requests ask for -/

/-- The value of a field after the committed patches: the last one that named it, without spaces at its ends. -/
def lastNamed (field : Patch → Option String) (initial : String) (committed : List Patch) : String :=
  committed.foldl (fun value p => ((field p).map Strings.trimSpace).getD value) initial

def expected (initial : Profile) (committed : List Patch) : Profile :=
  ⟨lastNamed Patch.DisplayName initial.displayName committed, lastNamed Patch.AvatarURL initial.avatarURL committed⟩

section runs

variable {R : Type} [DecidableEq R] {s s' s₀ : State R} {e : Event R} {es : List (Event R)}

/-- A field that the patch does not name still has the value that was read, without spaces at its ends. -/
def Unread (named : Option String) (read stored : String) : Prop := named = none → Strings.trimSpace read = stored

/-- Nobody has written a field that the request does not name since it read it. -/
def Fresh (s : State R) : Event R → Prop
  | .read _ _ => True
  | .write r => ∀ p current, s.requests r = some (.merging p current) →
      Unread p.DisplayName current.displayName s.profile.displayName ∧ Unread p.AvatarURL current.avatarURL s.profile.avatarURL

/-- A request changes no field that it does not name. -/
def Keeps (s : State R) (e : Event R) (s' : State R) : Prop :=
  ∀ r p current, e = .write r → s.requests r = some (.merging p current) →
    (p.DisplayName = none → s'.profile.displayName = s.profile.displayName) ∧
      (p.AvatarURL = none → s'.profile.avatarURL = s.profile.avatarURL)

theorem merge_some {p : Patch} {current profile : Profile} (h : merge p current = some profile) :
    profile = ⟨Strings.trimSpace (p.DisplayName.getD current.displayName), Strings.trimSpace (p.AvatarURL.getD current.avatarURL)⟩ := by
  rw [merge, updateProfile] at h
  split at h
  · cases h
  · split at h
    · cases h
    · exact (Option.some.inj h).symm

theorem lastNamed_concat (field : Patch → Option String) (initial : String) (committed : List Patch) (p : Patch) :
    lastNamed field initial (committed ++ [p]) = ((field p).map Strings.trimSpace).getD (lastNamed field initial committed) := by
  rw [lastNamed, List.foldl_append]
  rfl

theorem unread_some (value : String) {read stored : String} : Unread (some value) read stored := fun h => absurd h (Option.some_ne_none value)

/-- What is written to a field. -/
theorem written_eq {named : Option String} {read stored : String} (h : Unread named read stored) :
    Strings.trimSpace (named.getD read) = (named.map Strings.trimSpace).getD stored := by
  cases named with
  | none => exact h rfl
  | some value => rfl

theorem write_cases {r : R} (h : s.step (.write r) = some s') :
    ∃ p current, s.requests r = some (.merging p current) ∧
      (s' = s.put r .answered ∨ ∃ profile, merge p current = some profile ∧
        s' = { s with profile, committed := s.committed ++ [p] }.put r .answered) := by
  rw [State.step] at h
  split at h
  · rename_i p current hphase
    refine ⟨p, current, hphase, ?_⟩
    split at h
    · exact .inl (Option.some.inj h).symm
    · rename_i profile hmerge
      exact .inr ⟨profile, hmerge, (Option.some.inj h).symm⟩
  · cases h

theorem read_profile {r : R} {p : Patch} (h : s.step (.read r p) = some s') : s'.profile = s.profile ∧ s'.committed = s.committed := by
  rw [State.step] at h
  split at h
  · cases h
  · split at h <;> cases h <;> exact ⟨rfl, rfl⟩

/-- A step that is fresh writes what the patch asks for. -/
theorem step_expected {initial : Profile} (hs : s.step e = some s') (hfresh : Fresh s e) (h : s.profile = expected initial s.committed) :
    s'.profile = expected initial s'.committed ∧ Keeps s e s' := by
  cases e with
  | read r p =>
    obtain ⟨hprofile, hcommitted⟩ := read_profile hs
    refine ⟨by rw [hprofile, hcommitted, h], ?_⟩
    rintro _ _ _ ⟨⟩
  | write r =>
    obtain ⟨p, current, hphase, rfl | ⟨profile, hmerge, rfl⟩⟩ := write_cases hs
    · exact ⟨h, fun _ _ _ _ _ => ⟨fun _ => rfl, fun _ => rfl⟩⟩
    · obtain ⟨hname, havatar⟩ := hfresh p current hphase
      have hprofile := merge_some hmerge
      rw [written_eq hname, written_eq havatar] at hprofile
      constructor
      · show profile = expected initial (s.committed ++ [p])
        rw [hprofile, expected, lastNamed_concat, lastNamed_concat, h]
        rfl
      · rintro r' p' current' ⟨⟩ hphase'
        cases hphase.symm.trans hphase'
        refine ⟨fun hnone => ?_, fun hnone => ?_⟩
        · show profile.displayName = s.profile.displayName
          rw [hprofile, hnone]
          rfl
        · show profile.avatarURL = s.profile.avatarURL
          rw [hprofile, hnone]
          rfl

/-- In every run whose writes are fresh each field has what the last committed request that named it asked for, and no request
changes a field that it does not name. -/
theorem patches_commute {initial : Profile} (h : Trace State.step Fresh ({ profile := initial } : State R) es s) :
    s.profile = expected initial s.committed ∧ ∀ e s', Fresh s e → s.step e = some s' → Keeps s e s' := by
  have hexpected : s.profile = expected initial s.committed := by
    refine h.invariant (P := fun _ s => s.profile = expected initial s.committed) rfl ?_
    intro es e s s' _ hs hfresh hstep
    exact (step_expected hstep hfresh hs).1
  exact ⟨hexpected, fun e s' hfresh hstep => (step_expected hstep hfresh hexpected).2⟩

end runs

/-- Two disjoint patches, one after the other. -/
theorem patches_in_turn : ∃ s : State Nat, s.profile = ⟨"B", "https://b"⟩ ∧ s.profile = expected ⟨"A", ""⟩ s.committed := by
  have h₀ : Trace State.step Fresh ({ profile := ⟨"A", ""⟩ } : State Nat) _ _ := Trace.start
  have h₁ := h₀.next (e := Event.read 0 { DisplayName := some " B" }) trivial rfl
  have h₂ := h₁.next (e := Event.write 0) (by
    intro p current hphase
    cases hphase
    exact ⟨unread_some _, fun _ => by decide⟩) rfl
  have h₃ := h₂.next (e := Event.read 1 { AvatarURL := some "https://b" }) trivial rfl
  have h₄ := h₃.next (e := Event.write 1) (by
    intro p current hphase
    cases hphase
    exact ⟨fun _ => by decide, unread_some _⟩) rfl
  exact ⟨_, rfl, (patches_commute h₄).1⟩

/-- The second of two disjoint patches that read the same profile writes the old name back. -/
theorem name_lost : ¬ ∀ (initial : Profile) (es : List (Event Nat)) (s : State Nat),
    Trace State.step (fun _ _ => True) { profile := initial } es s → s.profile = expected initial s.committed := by
  intro h
  have hrun : Trace State.step (fun _ _ => True) ({ profile := ⟨"A", ""⟩ } : State Nat)
      [.read 0 { DisplayName := some "B" }, .read 1 { AvatarURL := some "https://b" }, .write 0, .write 1] _ := Trace.play (fun _ _ => trivial) rfl
  exact absurd (congrArg Profile.displayName (h _ _ _ hrun)) (by decide)

end Ploykit.Identity.ProfilePatch
