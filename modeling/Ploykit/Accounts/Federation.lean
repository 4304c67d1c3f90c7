import Ploykit.Accounts.Impersonation

/-!
# Federated logins

A workspace brings its own identity provider, which may answer anything. Identities are
kept under the key of the workspace, whatever the issuer, and one that is new is linked by its address.
-/

namespace Ploykit.Accounts

open Lib hiding Time
open Webx
open Identity (normalizeEmail)

/-- How a callback has come to the user: it has found the identity linked, or it has found no link, read the active user
of the address, and linked the identity to that user. -/
def Progress.LeadsTo (γ : Progress) (email : String) (l : OAuthAccount) (w : World) : Prop :=
  γ.found = some l ∨ γ.link = some l ∧ .linked l ∈ w.history ∧
    ∃ u u', γ.row = some (.byEmail email, u) ∧ u.id = l.userID ∧ u.email = email ∧ u.status = .active ∧
      w.users.get l.userID = some u' ∧ u.Becomes u'

/-- Whatever it is asked. -/
def fakeIdP (_ : String) : OAuthIdentity := ⟨.oauth "", "sub", "ann@example.com", true⟩

def fakeProvider (issuer : String) : FedProviderRow := ⟨"w", issuer, "client", "secret", "openid email profile"⟩

def fedWorld : World := { annWorld with providers := ⟨[fakeProvider "https://one.example.com"], List.nodup_singleton _⟩ }

def fedCookie : FedLoginCookie := ⟨"state", "verifier", "w"⟩

def annLinked : Call := .fedCallback "x" (some fedCookie) "code" "state"

def annIdentity : OAuthIdentity := ⟨.oidcFed "w", "sub", "ann@example.com", true⟩

/-- A callback that is executed alone leaves the accounts that there have been to others, where no identity is linked yet. -/
def ReturnsNobodyElse : Prop := ∀ (svc : Service) (w w' : World) newID cookie code state workspaceID id res,
  w.links.rows = [] → ((Call.fedCallback newID cookie code state).exec svc).run.Path (Step svc) w
    (.ret (.ok (.linked workspaceID id res))) w' → w.users.get res.userID = none

/-- Who was linked under the issuer of a workspace is not returned under another, unless by the address. -/
def KeepsToIssuer : Prop := ∀ (svc : Service) (w w' : World) row row' newID cookie code state workspaceID id res,
  w.providers.get workspaceID = some row → row'.workspaceID = workspaceID → row'.issuerURL ≠ row.issuerURL →
  ((Call.fedCallback newID cookie code state).exec svc).run.Path (Step svc)
    ((Query.upsertFedProvider row').exec svc.cfg w).2 (.ret (.ok (.linked workspaceID id res))) w' →
  w.users.find (·.email = normalizeEmail svc.toLower id.email) = none →
  ∀ l ∈ w.links.rows, l.provider = .oidcFed workspaceID → res.userID ≠ l.userID

theorem not_returnsNobodyElse : ¬ ReturnsNobodyElse := by
  intro h
  have hplay : ((annLinked.exec plainService).run.complete (World.exec plainService fakeIdP) fedWorld).any
      fun x => x.1 = .ok (.linked "w" annIdentity ⟨"ann", "ann@example.com", false⟩) := by decide
  obtain ⟨⟨r, w'⟩, hcomplete, hr⟩ := (Option.any_eq_true _ _).1 hplay
  obtain rfl := of_decide_eq_true hr
  have hnone := h plainService fedWorld w' _ _ _ _ _ _ _ rfl (Script.complete_path World.exec_step hcomplete)
  cases hnone

/-- The account is linked under the first issuer. -/
def linkedWorld : World := { fedWorld with links := ⟨[⟨.oidcFed "w", "sub", "ann"⟩], List.nodup_singleton _⟩ }

/-- The second issuer knows the subject under an address that nobody has. -/
def otherIdP (_ : String) : OAuthIdentity := ⟨.oauth "", "sub", "other@example.com", true⟩

def otherIdentity : OAuthIdentity := ⟨.oidcFed "w", "sub", "other@example.com", true⟩

theorem not_keepsToIssuer : ¬ KeepsToIssuer := by
  intro h
  have hplay : ((annLinked.exec plainService).run.complete (World.exec plainService otherIdP)
      ((Query.upsertFedProvider (fakeProvider "https://two.example.com")).exec plainService.cfg linkedWorld).2).any
      fun x => x.1 = .ok (.linked "w" otherIdentity ⟨"ann", "other@example.com", false⟩) := by decide
  obtain ⟨⟨r, w'⟩, hcomplete, hr⟩ := (Option.any_eq_true _ _).1 hplay
  obtain rfl := of_decide_eq_true hr
  exact h plainService linkedWorld w' (fakeProvider "https://one.example.com") (fakeProvider "https://two.example.com") _ _ _ _
    "w" _ _ (by decide) rfl (by decide) (Script.complete_path World.exec_step hcomplete) (by decide) _ List.mem_cons_self rfl rfl

end Ploykit.Accounts
