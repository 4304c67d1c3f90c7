import Ploykit.Platform.Http
import Ploykit.Platform.Net

/-!
# The client address

`extractIP` of `platform/webx/ratelimit.go`. An address is not printed, and the text of a
remote address that is none stays as it is.
-/

namespace Ploykit.Webx.ClientIP

open Http Net

def trimSpace (s : List Char) : List Char := ((s.dropWhile Strings.isSpace).reverse.dropWhile Strings.isSpace).reverse

def isTrustedProxy (ip : IP) (cidrs : List IPNet) : Bool := cidrs.any fun cidr => cidr.Contains ip

section extract

variable (cidrs : List IPNet)

/-- The address of an entry, if it is one and no trusted proxy. -/
def candidate (part : List Char) : Option IP := (ParseIP (trimSpace part)).filter fun ip => !isTrustedProxy ip cidrs

def scan (line : String) : Option IP := (line.toList.splitOn ',').reverse.findSome? (candidate cidrs)

def remoteHost (remoteAddr : String) : List Char := (splitHost remoteAddr.toList).getD remoteAddr.toList

def extractIP (remoteAddr : String) (h : Header) : IP ⊕ List Char :=
  let own := (ParseIP (remoteHost remoteAddr)).elim (.inr (remoteHost remoteAddr)) .inl
  let xff := h.get "X-Forwarded-For"
  if cidrs ≠ [] ∧ (ParseIP (remoteHost remoteAddr)).any (isTrustedProxy · cidrs) ∧ xff ≠ "" then (scan cidrs xff).elim own .inl
  else own

end extract

/-! ## What proxies append -/

/-- The text that the proxies put at the end of the last line of the client, and their further lines. -/
structure Appended where
  tail : Option String
  lines : List String

namespace Appended

variable (a : Appended)

/-- The lines that the proxies make by themselves. -/
def own : List String := a.tail.toList ++ a.lines

def onto : List String → List String
  | [] => a.own
  | [c] => a.tail.elim c (c ++ ", " ++ ·) :: a.lines
  | c :: d :: client => c :: onto (d :: client)

/-- The right-most address that was appended and is no trusted proxy. -/
def address (cidrs : List IPNet) : Option IP := a.own.reverse.findSome? (scan cidrs)

/-- Every client that sends so many lines is known by that address. -/
def Known (cidrs : List IPNet) (remoteAddr : String) (n : Nat) : Prop :=
  ∃ ip, a.address cidrs = some ip ∧ ∀ client, client.length = n → ∀ h : Header, h.values "X-Forwarded-For" = a.onto client →
    extractIP cidrs remoteAddr h = .inl ip

end Appended

/-! ## The first line -/

section lines

variable {cidrs : List IPNet} {remoteAddr : String} {remote : IP} {h : Header} {ip : IP}

theorem candidate_untrusted {part : List Char} (h : candidate cidrs part = some ip) : isTrustedProxy ip cidrs = false :=
  Bool.not_eq_eq_eq_not.1 (Option.mem_filter_iff.1 h).2

theorem scan_untrusted {line : String} (h : scan cidrs line = some ip) : isTrustedProxy ip cidrs = false := by
  obtain ⟨part, -, hpart⟩ := List.exists_of_findSome?_eq_some h
  exact candidate_untrusted hpart

theorem scan_empty : scan cidrs "" = none := rfl

/-- What is appended to a line is read before it. -/
theorem scan_append (c t : String) : scan cidrs (c ++ ", " ++ t) = (scan cidrs t).or (scan cidrs c) := by
  have hlist : (c ++ ", " ++ t).toList = c.toList ++ ',' :: ' ' :: t.toList := by simp
  have hspace : ∀ s : List Char, ((' ' :: s).splitOn ',').reverse.findSome? (candidate cidrs) =
      (s.splitOn ',').reverse.findSome? (candidate cidrs) := by
    intro s
    rw [List.splitOn_cons_eq_if_modifyHead, if_neg (by decide)]
    cases s.splitOn ',' with
    | nil => rfl
    | cons part parts =>
      rw [List.modifyHead_cons, List.reverse_cons, List.reverse_cons, List.findSome?_append, List.findSome?_append]
      rfl
  rw [scan, hlist, List.splitOn_append_cons_self, List.reverse_append, List.findSome?_append, hspace]
  rfl

/-- Only the first line is read. -/
theorem extractIP_trusted (hremote : ParseIP (remoteHost remoteAddr) = some remote) (htrusted : isTrustedProxy remote cidrs = true) :
    extractIP cidrs remoteAddr h = .inl ((scan cidrs (h.get "X-Forwarded-For")).getD remote) := by
  have hcidrs : cidrs ≠ [] := by
    rintro rfl
    exact Bool.false_ne_true htrusted
  unfold extractIP
  rw [hremote]
  by_cases hxff : h.get "X-Forwarded-For" = ""
  · rw [if_neg fun hread => hread.2.2 hxff, hxff, scan_empty]
    rfl
  · rw [if_pos ⟨hcidrs, htrusted, hxff⟩]
    cases scan cidrs (h.get "X-Forwarded-For") <;> rfl

theorem extractIP_eq_iff (hremote : ParseIP (remoteHost remoteAddr) = some remote) (htrusted : isTrustedProxy remote cidrs = true)
    (hip : isTrustedProxy ip cidrs = false) : extractIP cidrs remoteAddr h = .inl ip ↔ scan cidrs (h.get "X-Forwarded-For") = some ip := by
  rw [extractIP_trusted hremote htrusted, Sum.inl.injEq]
  cases scan cidrs (h.get "X-Forwarded-For") with
  | none =>
    refine iff_of_false ?_ (Option.some_ne_none _).symm
    rintro rfl
    exact Bool.false_ne_true (hip.symm.trans htrusted)
  | some found => exact (Option.some.injEq _ _ ▸ Iff.rfl)

theorem onto_get {a : Appended} {client : List String} (hlines : h.values "X-Forwarded-For" = a.onto client) :
    h.get "X-Forwarded-For" = (a.onto client).headD "" := congrArg (List.headD · "") hlines

end lines

/-- The header whose lines are these. -/
def forwarded (lines : List String) : Header := Function.update Header.empty "X-Forwarded-For" (some lines)

section known

variable {cidrs : List IPNet} {ip : IP} {a : Appended}

theorem head_own : scan cidrs (a.own.headD "") = a.own.head?.bind (scan cidrs) := by cases a.own <;> rfl

theorem one_line : (∀ c : String, scan cidrs ((a.onto [c]).headD "") = some ip) ↔ a.tail.bind (scan cidrs) = some ip := by
  have honto : ∀ c, (a.onto [c]).headD "" = a.tail.elim c (c ++ ", " ++ ·) := fun _ => rfl
  simp only [honto]
  cases a.tail with
  | none => exact iff_of_false (fun h => absurd (h "") (Option.some_ne_none _).symm) (Option.some_ne_none _).symm
  | some t =>
    simp only [Option.elim_some, scan_append]
    constructor
    · intro h
      have hempty := h ""
      rwa [scan_empty, Option.or_none] at hempty
    · intro h c
      exact congrArg (Option.or · _) h

/-- A first line of two or more is the client's own. -/
theorem more_lines (n : Nat) : ¬ ∀ client : List String, client.length = n + 2 → scan cidrs ((a.onto client).headD "") = some ip := by
  intro h
  exact absurd (h ("" :: "" :: List.replicate n "") (by simp)) (Option.some_ne_none _).symm

end known

/-- The proxies decide the address exactly if the client sends no line and the first line of the proxies has it, or the client
sends one line and the text at its end has it. -/
theorem known_iff (cidrs : List IPNet) (remoteAddr : String) (remote : IP) (hremote : ParseIP (remoteHost remoteAddr) = some remote)
    (htrusted : isTrustedProxy remote cidrs = true) (a : Appended) (n : Nat) : a.Known cidrs remoteAddr n ↔
      ∃ ip, a.address cidrs = some ip ∧ (n = 0 ∧ a.own.head?.bind (scan cidrs) = some ip ∨ n = 1 ∧ a.tail.bind (scan cidrs) = some ip) := by
  refine exists_congr fun ip => and_congr_right fun hip => ?_
  have huntrusted : isTrustedProxy ip cidrs = false := by
    obtain ⟨line, -, hline⟩ := List.exists_of_findSome?_eq_some hip
    exact scan_untrusted hline
  have hread : (∀ client, client.length = n → ∀ h : Header, h.values "X-Forwarded-For" = a.onto client →
      extractIP cidrs remoteAddr h = .inl ip) ↔ ∀ client, client.length = n → scan cidrs ((a.onto client).headD "") = some ip := by
    refine forall₂_congr fun client _ => ?_
    constructor
    · intro h
      have hlines : (forwarded (a.onto client)).values "X-Forwarded-For" = a.onto client := by simp [forwarded, Header.values]
      rw [← onto_get hlines]
      exact (extractIP_eq_iff hremote htrusted huntrusted).1 (h _ hlines)
    · intro h header hlines
      rw [extractIP_eq_iff hremote htrusted huntrusted, onto_get hlines]
      exact h
  rw [hread]
  rcases n with - | - | n
  · simp only [List.length_eq_zero_iff, forall_eq, true_and, Nat.zero_ne_one, false_and, or_false]
    exact ⟨fun h => head_own.symm.trans h, fun h => head_own.trans h⟩
  · simp only [Nat.zero_add, Nat.one_ne_zero, false_and, true_and, false_or]
    rw [← one_line]
    constructor
    · intro h c
      exact h [c] rfl
    · intro h client hlength
      obtain ⟨c, rfl⟩ := List.length_eq_one_iff.1 hlength
      exact h c
  · refine iff_of_false (more_lines n) ?_
    rintro (⟨h, -⟩ | ⟨h, -⟩) <;> omega

def proxies : List IPNet := [⟨[10, 0, 0, 0], [255, 0, 0, 0]⟩]

/-- One line, at the end of which a proxy has put the address. -/
theorem known_one_line : Appended.Known ⟨some "203.0.113.9", []⟩ proxies "10.0.0.7:4711" 1 :=
  (known_iff proxies "10.0.0.7:4711" (mapped [10, 0, 0, 7]) (by decide) (by decide) ⟨some "203.0.113.9", []⟩ 1).2
    ⟨mapped [203, 0, 113, 9], by decide, .inr ⟨rfl, by decide⟩⟩

/-- The client sends two lines, and the first one has an address of its choice. -/
theorem two_lines_forged : ¬ ∀ cidrs remoteAddr remote, ParseIP (remoteHost remoteAddr) = some remote → isTrustedProxy remote cidrs = true →
    ∀ (a : Appended) (ip : IP), a.address cidrs = some ip → ∀ n, a.Known cidrs remoteAddr n := by
  intro h
  obtain ⟨ip, hip, hknown⟩ := h proxies "10.0.0.7:4711" (mapped [10, 0, 0, 7]) (by decide) (by decide) ⟨some "203.0.113.9", []⟩
    (mapped [203, 0, 113, 9]) (by decide) 2
  have hforged := hknown ["1.2.3.4", ""] rfl (forwarded ["1.2.3.4", ", 203.0.113.9"]) rfl
  have hfirst : extractIP proxies "10.0.0.7:4711" (forwarded ["1.2.3.4", ", 203.0.113.9"]) = .inl (mapped [1, 2, 3, 4]) := by decide
  have hsame : (mapped [1, 2, 3, 4]) = ip := Sum.inl.inj (hfirst.symm.trans hforged)
  rw [← hsame] at hip
  exact absurd hip (by decide)

end Ploykit.Webx.ClientIP
