import CryptoAggHarmonic.Lib.Table
import CryptoAggHarmonic.Sql.Basic
import CryptoAggHarmonic.Lib.Steps
import Mathlib.Tactic.SplitIfs

/-!
# Invites and registration

The tables `auth.users`, `profiles`, `invites` and `invite_usage` with their keys, the trigger `handle_new_user` on
`auth.users`, and the calls that create and revoke invites. Foreign keys are checked at the end of each statement. A
call that raises is rolled back.
-/

namespace CryptoAggHarmonic.Invites

open Sql

structure User where
  id : Uuid
  email : String
  deriving DecidableEq

structure Profile where
  id : Uuid
  email : String
  dailyQuota : ℤ
  rsiDailyQuota : ℤ
  deriving DecidableEq

inductive InviteStatus
  | pending
  | accepted
  | revoked
  | expired
  deriving DecidableEq, Repr

structure Invite where
  id : Uuid
  email : String
  status : InviteStatus
  expiresAt : ℕ
  acceptedAt : Option ℕ
  createdAt : ℕ
  code : Option String
  maxUses : ℤ
  usedCount : ℤ
  dailyQuotaOverride : Option ℤ
  rsiDailyQuotaOverride : Option ℤ
  createdBy : Option Uuid
  deriving DecidableEq

structure InviteUsage where
  id : Uuid
  inviteId : Uuid
  userId : Uuid
  usedAt : ℕ
  deriving DecidableEq

structure Db where
  users : Table User.id
  profiles : Table Profile.id
  invites : Table Invite.id
  usage : Table InviteUsage.id
  /-- `profiles.id REFERENCES auth.users(id)` -/
  profileUser : ∀ p ∈ profiles.rows, users.get? p.id ≠ none

namespace Db

def empty : Db where
  users := .empty
  profiles := .empty
  invites := .empty
  usage := .empty
  profileUser := by simp [Table.empty]

def insertUser (db : Db) (user : User) : Except SqlError Db :=
  match h : db.users.insert? user with
  | none => .error .uniqueViolation
  | some users => .ok { db with
      users := users
      profileUser := fun p hp => Table.get?_insert?_ne_none h (db.profileUser p hp) }

/-- `INSERT INTO profiles … ON CONFLICT (id) DO NOTHING` -/
def insertProfile (db : Db) (profile : Profile) : Except SqlError Db :=
  if hid : db.users.get? profile.id = none then .error .foreignKeyViolation
  else
    match h : db.profiles.insert? profile with
    | none => .ok db
    | some profiles => .ok { db with
        profiles := profiles
        profileUser := fun p hp => by
          rw [(Table.insert?_eq_some h).1, List.mem_append, List.mem_singleton] at hp
          rcases hp with hp | rfl
          · exact db.profileUser p hp
          · exact hid }

def insertUsage (db : Db) (row : InviteUsage) : Except SqlError Db :=
  if db.invites.get? row.inviteId = none ∨ db.profiles.get? row.userId = none then .error .foreignKeyViolation
  else
    match db.usage.insert? row with
    | none => .error .uniqueViolation
    | some usage => .ok { db with usage := usage }

variable (lower : String → String)

/-- What the trigger looks for. -/
def matching (db : Db) (now : ℕ) (email : String) : List Invite :=
  db.invites.rows.filter fun i => lower i.email = lower email ∧ i.status = .pending ∧ now < i.expiresAt

/-- `ORDER BY created_at ASC LIMIT 1`: the unique index on the pending addresses leaves at most one. -/
def matchingInvite? (db : Db) (now : ℕ) (email : String) : Option Invite := (db.matching lower now email).head?

/-- The `UPDATE` of the invite. -/
def consumeInvite (db : Db) (now : ℕ) (inviteId : Uuid) : Db :=
  { db with invites := db.invites.update inviteId (fun i => { i with
      usedCount := i.usedCount + 1
      status := if i.usedCount + 1 ≥ i.maxUses then .accepted else i.status
      acceptedAt := if i.usedCount + 1 ≥ i.maxUses then some now else i.acceptedAt }) fun _ => rfl }

/-- The trigger: the row of `invite_usage` comes before the profile it refers to. -/
def handleNewUser (db : Db) (now : ℕ) (usageId : Uuid) (new : User) : Except SqlError Db :=
  match (db.matchingInvite? lower now new.email).filter fun i => i.usedCount < i.maxUses with
  | some invite => do
      let consumed := db.consumeInvite now invite.id
      let used ← consumed.insertUsage { id := usageId, inviteId := invite.id, userId := new.id, usedAt := now }
      used.insertProfile {
        id := new.id
        email := new.email
        dailyQuota := invite.dailyQuotaOverride.getD 5
        rsiDailyQuota := invite.rsiDailyQuotaOverride.getD 50 }
  | none => db.insertProfile { id := new.id, email := new.email, dailyQuota := 5, rsiDailyQuota := 50 }

/-- `INSERT INTO auth.users` with its trigger. -/
def signUp (db : Db) (now : ℕ) (usageId : Uuid) (new : User) : Except SqlError Db := do
  let inserted ← db.insertUser new
  inserted.handleNewUser lower now usageId new

end Db

/-! ## The calls of the administrator -/

structure InviteArgs where
  email : Option String
  quota : ℤ
  rsiQuota : ℤ
  maxUses : ℤ
  createdBy : Uuid
  daysValid : ℕ

/-- The bounds the route puts on the arguments. -/
def InviteArgs.clamp (args : InviteArgs) : InviteArgs :=
  { args with
    quota := max 1 (min args.quota 1000)
    rsiQuota := max 1 (min args.rsiQuota 10000)
    maxUses := max 1 (min args.maxUses 100)
    daysValid := max 1 (min args.daysValid 365) }

/-- Seconds in a day. -/
def daySeconds : ℕ := 86400

namespace Db

variable (lower : String → String)

/-- The `INSERT` of `create_invite_code`, with the code it has drawn. -/
def createInviteCode (db : Db) (now : ℕ) (newId : Uuid) (code : String) (args : InviteArgs) : Except SqlError Db :=
  match args.email with
  | none => .error .notNullViolation
  | some email =>
      if db.profiles.get? args.createdBy = none then .error .foreignKeyViolation
      else if db.invites.rows.any fun i =>
          i.email = email || (i.status = .pending && lower i.email = lower email) || i.code = some code then
        .error .uniqueViolation
      else
        match db.invites.insert? {
          id := newId
          email := email
          status := .pending
          expiresAt := now + args.daysValid * daySeconds
          acceptedAt := none
          createdAt := now
          code := some code
          maxUses := args.maxUses
          usedCount := 0
          dailyQuotaOverride := some args.quota
          rsiDailyQuotaOverride := some args.rsiQuota
          createdBy := some args.createdBy } with
        | none => .error .uniqueViolation
        | some invites => .ok { db with invites := invites }

def createInvite (db : Db) (now : ℕ) (newId : Uuid) (code : String) (args : InviteArgs) : Except SqlError Db :=
  db.createInviteCode lower now newId code args.clamp

def revokeInvite (db : Db) (inviteId : Uuid) : Db :=
  { db with invites := db.invites.update inviteId (fun i => { i with status := .revoked }) fun _ => rfl }

end Db

inductive Call
  | signUp (now : ℕ) (usageId : Uuid) (new : User)
  | createInvite (now : ℕ) (newId : Uuid) (code : String) (args : InviteArgs)
  | revokeInvite (inviteId : Uuid)

def Db.exec (lower : String → String) (db : Db) : Call → Db
  | .signUp now usageId new => (db.signUp lower now usageId new).toOption.getD db
  | .createInvite now newId code args => (db.createInvite lower now newId code args).toOption.getD db
  | .revokeInvite inviteId => db.revokeInvite inviteId

end CryptoAggHarmonic.Invites

/-!
# No invite is ever used

A new user has no profile when the trigger records the use of the invite, so the foreign key of `invite_usage` fails
and the whole sign-up is rolled back. Every invite stays as it was created, apart from being revoked.
-/

namespace CryptoAggHarmonic.Invites

open Sql

/-- An invite that a sign-up is entitled to. -/
def Invite.Entitles (lower : String → String) (now : ℕ) (email : String) (i : Invite) : Prop :=
  lower i.email = lower email ∧ i.status = .pending ∧ now < i.expiresAt ∧ i.usedCount < i.maxUses

instance (lower : String → String) (now : ℕ) (email : String) (i : Invite) : Decidable (i.Entitles lower now email) :=
  inferInstanceAs (Decidable (_ ∧ _))

/-- Nothing has been used, and every invite is good for a use. -/
structure Unused (db : Db) : Prop where
  usage : db.usage.rows = []
  usedCount : ∀ i ∈ db.invites.rows, i.usedCount = 0
  maxUses : ∀ i ∈ db.invites.rows, 1 ≤ i.maxUses
  status : ∀ i ∈ db.invites.rows, i.status ≠ .accepted

section

variable {lower : String → String} {db db' : Db} {now : ℕ} {usageId : Uuid} {new : User} {profile : Profile}

theorem unused_empty : Unused .empty := by
  constructor <;> simp [Db.empty, Table.empty]

/-! ## The statements of the trigger -/

theorem insertUser_eq_ok (h : db.insertUser new = .ok db') : db'.invites = db.invites ∧ db'.usage = db.usage ∧
    db'.profiles = db.profiles ∧ db.users.get? new.id = none := by
  unfold Db.insertUser at h
  split at h
  · cases h
  · rename_i users hinsert
    cases h
    exact ⟨rfl, rfl, rfl, Table.get?_eq_none.mpr (Table.insert?_eq_some hinsert).2⟩

theorem insertProfile_eq_ok (h : db.insertProfile profile = .ok db') :
    db'.invites = db.invites ∧ db'.usage = db.usage := by
  unfold Db.insertProfile at h
  split_ifs at h
  split at h <;> cases h <;> exact ⟨rfl, rfl⟩

/-- A new user has no profile: `profiles.id` refers to `auth.users`. -/
theorem profile_eq_none {id : Uuid} (h : db.users.get? id = none) : db.profiles.get? id = none := by
  rw [Table.get?_eq_none]
  rintro p hp rfl
  exact db.profileUser p hp h

theorem matchingInvite?_eq_some {i : Invite} (h : db.matchingInvite? lower now new.email = some i) :
    i ∈ db.invites.rows ∧ lower i.email = lower new.email ∧ i.status = .pending ∧ now < i.expiresAt := by
  have hmem := List.mem_of_head? h
  simpa [Db.matching] using hmem

theorem handleNewUser_error {i : Invite} (hprofile : db.profiles.get? new.id = none)
    (hmatch : (db.matchingInvite? lower now new.email).filter (fun i => i.usedCount < i.maxUses) = some i) :
    db.handleNewUser lower now usageId new = .error .foreignKeyViolation := by
  have hconsumed : (db.consumeInvite now i.id).profiles.get? new.id = none := hprofile
  simp [Db.handleNewUser, hmatch, Db.insertUsage, hconsumed, bind, Except.bind]

theorem handleNewUser_eq_ok (h : db.handleNewUser lower now usageId new = .ok db')
    (hmatch : (db.matchingInvite? lower now new.email).filter (fun i => i.usedCount < i.maxUses) = none) :
    db'.invites = db.invites ∧ db'.usage = db.usage := by
  simp only [Db.handleNewUser, hmatch] at h
  exact insertProfile_eq_ok h

theorem Unused.filter_matching (h : Unused db) :
    (db.matchingInvite? lower now new.email).filter (fun i => i.usedCount < i.maxUses) =
      db.matchingInvite? lower now new.email := by
  cases hi : db.matchingInvite? lower now new.email with
  | none => rfl
  | some i =>
      have hmem := (matchingInvite?_eq_some hi).1
      have hlt : i.usedCount < i.maxUses := by
        rw [h.usedCount i hmem]
        exact Int.lt_of_lt_of_le Int.zero_lt_one (h.maxUses i hmem)
      simp [hlt]

theorem Unused.matching_isSome (h : Unused db) :
    (∃ i ∈ db.invites.rows, i.Entitles lower now new.email) ↔ (db.matchingInvite? lower now new.email).isSome := by
  rw [Db.matchingInvite?, List.isSome_head?]
  constructor
  · rintro ⟨i, hi, hemail, hpending, hlive, -⟩
    have hmem : i ∈ db.matching lower now new.email := by simp [Db.matching, hi, hemail, hpending, hlive]
    exact List.ne_nil_of_mem hmem
  · intro hne
    obtain ⟨i, hi⟩ := List.exists_mem_of_ne_nil _ hne
    simp only [Db.matching, List.mem_filter, decide_eq_true_eq] at hi
    refine ⟨i, hi.1, hi.2.1, hi.2.2.1, hi.2.2.2, ?_⟩
    rw [h.usedCount i hi.1]
    exact Int.lt_of_lt_of_le Int.zero_lt_one (h.maxUses i hi.1)

/-! ## A sign-up -/

theorem Unused.congr (h : Unused db) (hinvites : db'.invites = db.invites) (husage : db'.usage = db.usage) :
    Unused db' :=
  ⟨husage ▸ h.usage, hinvites ▸ h.usedCount, hinvites ▸ h.maxUses, hinvites ▸ h.status⟩

theorem Unused.signUp (h : Unused db) (hsign : db.signUp lower now usageId new = .ok db') :
    Unused db' ∧ ∀ i ∈ db.invites.rows, ¬ i.Entitles lower now new.email := by
  unfold Db.signUp at hsign
  cases hinsert : db.insertUser new with
  | error e => simp [hinsert, bind, Except.bind] at hsign
  | ok inserted =>
      simp only [hinsert, bind, Except.bind] at hsign
      obtain ⟨hinvites, husage, hprofiles, hfree⟩ := insertUser_eq_ok hinsert
      have hinserted : Unused inserted := h.congr hinvites husage
      cases hmatch : inserted.matchingInvite? lower now new.email with
      | some i =>
          have hprofile : inserted.profiles.get? new.id = none := hprofiles ▸ profile_eq_none hfree
          rw [handleNewUser_error hprofile (hinserted.filter_matching.trans hmatch)] at hsign
          cases hsign
      | none =>
          obtain ⟨hinvites', husage'⟩ := handleNewUser_eq_ok hsign (hinserted.filter_matching.trans hmatch)
          refine ⟨hinserted.congr hinvites' husage', fun i hi hentitles => ?_⟩
          have hsome := hinserted.matching_isSome.mp ⟨i, hinvites ▸ hi, hentitles⟩
          rw [hmatch] at hsome
          cases hsome

/-! ## The other calls -/

theorem Unused.createInvite {newId : Uuid} {code : String} {args : InviteArgs} (h : Unused db)
    (hcreate : db.createInvite lower now newId code args = .ok db') : Unused db' := by
  unfold Db.createInvite Db.createInviteCode at hcreate
  split at hcreate
  · cases hcreate
  · split_ifs at hcreate
    split at hcreate
    · cases hcreate
    · rename_i invites hinsert
      cases hcreate
      have hrows := (Table.insert?_eq_some hinsert).1
      refine ⟨h.usage, fun i hi => ?_, fun i hi => ?_, fun i hi => ?_⟩ <;>
        rw [hrows, List.mem_append, List.mem_singleton] at hi <;> rcases hi with hi | rfl
      · exact h.usedCount i hi
      · rfl
      · exact h.maxUses i hi
      · exact Int.le_max_left 1 _
      · exact h.status i hi
      · simp

theorem Unused.revokeInvite {inviteId : Uuid} (h : Unused db) : Unused (db.revokeInvite inviteId) := by
  refine ⟨h.usage, fun i hi => ?_, fun i hi => ?_, fun i hi => ?_⟩ <;>
    obtain ⟨j, hj, rfl⟩ := Rows.mem_update.mp hi <;> split_ifs
  · exact h.usedCount j hj
  · exact h.usedCount j hj
  · exact h.maxUses j hj
  · exact h.maxUses j hj
  · simp
  · exact h.status j hj

theorem Unused.exec {c : Call} (h : Unused db) : Unused (db.exec lower c) := by
  cases c with
  | signUp now usageId new =>
      unfold Db.exec
      dsimp only
      cases hsign : db.signUp lower now usageId new with
      | error e => exact h
      | ok db' => exact (h.signUp hsign).1
  | createInvite now newId code args =>
      unfold Db.exec
      dsimp only
      cases hcreate : db.createInvite lower now newId code args with
      | error e => exact h
      | ok db' => exact h.createInvite hcreate
  | revokeInvite inviteId => exact h.revokeInvite

end

end CryptoAggHarmonic.Invites
