import CryptoAggHarmonic.Invites.Registration

/-!
# The invite accounts

Counters, usage rows and states of the invites, and what a sign-up with an invite gets, over all calls in any order.
-/

namespace CryptoAggHarmonic.Invites

open Sql

/-- The counter of an invite, its usage rows and its state are in step. -/
def Accounted (db : Db) : Prop :=
  ∀ i ∈ db.invites.rows, i.usedCount = (db.usage.rows.filter fun r => r.inviteId = i.id).length ∧
    i.usedCount ≤ i.maxUses ∧ (i.status = .accepted ↔ i.usedCount = i.maxUses)

/-- A sign-up with an invite completes and gets a profile with the quotas of the invite. -/
def Welcomed (lower : String → String) (db : Db) : Call → Prop
  | .signUp now usageId new => ∀ i ∈ db.invites.rows, i.Entitles lower now new.email →
      ∃ db' p, db.signUp lower now usageId new = .ok db' ∧ db'.profiles.get? new.id = some p ∧
        p.dailyQuota = i.dailyQuotaOverride.getD 5 ∧ p.rsiDailyQuota = i.rsiDailyQuotaOverride.getD 50
  | _ => True

/-- No invite is there for the address that signs up. -/
def Uninvited (lower : String → String) (db : Db) : Call → Prop
  | .signUp now _ new => ∀ i ∈ db.invites.rows, ¬ i.Entitles lower now new.email
  | _ => True

theorem Unused.accounted {db : Db} (h : Unused db) : Accounted db := by
  intro i hi
  have hmax := h.maxUses i hi
  have hstatus := h.status i hi
  rw [h.usage, h.usedCount i hi]
  refine ⟨rfl, Int.le_of_lt (Int.lt_of_lt_of_le Int.zero_lt_one hmax), fun haccepted => absurd haccepted hstatus, ?_⟩
  intro hzero
  rw [← hzero] at hmax
  exact absurd hmax (by decide)

theorem Unused.welcomed_iff {lower : String → String} {db : Db} {c : Call} (h : Unused db) :
    Welcomed lower db c ↔ Uninvited lower db c := by
  cases c with
  | signUp now usageId new =>
      constructor
      · intro hwelcomed i hi hentitles
        obtain ⟨db', -, hsign, -⟩ := hwelcomed i hi hentitles
        exact (h.signUp hsign).2 i hi hentitles
      · intro huninvited i hi hentitles
        exact absurd hentitles (huninvited i hi)
  | createInvite => exact Iff.rfl
  | revokeInvite => exact Iff.rfl

/-- **The invite accounts.** They are right in every run, and every invited sign-up is served, exactly when nobody
signs up with an invite. -/
theorem invites_iff (lower : String → String) (calls : List Call) :
    (Steps.Always (Db.exec lower) Accounted .empty calls ∧ ∀ before c after, calls = before ++ c :: after →
      Welcomed lower (Steps.run (Db.exec lower) .empty before) c) ↔
    Steps.Along (Db.exec lower) (Uninvited lower) .empty calls := by
  have hunused : ∀ before, Unused (Steps.run (Db.exec lower) .empty before) := fun before =>
    Steps.run_kept (I := Unused) (fun _ _ h => h.exec) unused_empty
  have haccounted : Steps.Always (Db.exec lower) Accounted .empty calls :=
    have hanyone : Steps.Along (Db.exec lower) (fun _ _ => True) .empty calls :=
      Steps.along_iff.mpr fun _ _ _ _ => trivial
    Steps.always_of_along (I := Unused) (fun _ h => h.accounted) (fun _ _ h _ => h.exec) unused_empty hanyone
  rw [Steps.along_iff]
  constructor
  · rintro ⟨-, hwelcomed⟩ before c after hsplit
    exact (hunused before).welcomed_iff.mp (hwelcomed before c after hsplit)
  · intro huninvited
    exact ⟨haccounted, fun before c after hsplit =>
      (hunused before).welcomed_iff.mpr (huninvited before c after hsplit)⟩

/-- An administrator invites an address. -/
def inviteGuest : List Call :=
  [.signUp 0 10 ⟨1, "admin"⟩, .createInvite 0 20 "CODE" ⟨some "guest", 7, 70, 1, 1, 7⟩]

/-- Its owner signs up. -/
def guestSignUp : Call := .signUp 1 11 ⟨2, "guest"⟩

theorem invitedSignUp_aborts : ¬ ∀ before c after, inviteGuest ++ [guestSignUp] = before ++ c :: after →
    Welcomed id (Steps.run (Db.exec id) .empty before) c := by
  intro h
  obtain ⟨db', -, hsign, -⟩ := h inviteGuest guestSignUp [] rfl
    ⟨20, "guest", .pending, 604800, none, 0, some "CODE", 1, 0, some 7, some 70, some 1⟩ (by decide) (by decide)
  have hfails : ((Steps.run (Db.exec id) .empty inviteGuest).signUp id 1 11 ⟨2, "guest"⟩).toOption.isNone := by decide
  rw [hsign] at hfails
  cases hfails

end CryptoAggHarmonic.Invites
