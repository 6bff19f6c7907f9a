import RedPar.Proofs.Steps

/-!
# Histories

The commands that a history shows, in the order in which the main thread accepted them, and the
replies that each of their clients received.
-/

namespace RedPar
open Interleaved

/-- A command with its number, which is also its client. -/
structure Invocation where
  id : Nat
  name : CommandName
  argv : List RedisModuleString
deriving DecidableEq, Repr

def Entry.invocation? : Entry → Option Invocation
  | .invoke id name argv => some ⟨id, name, argv⟩
  | _ => none

def Entry.replyTo? (client : Nat) : Entry → Option Reply
  | .reply c r => if c = client then some r else none
  | _ => none

def invocations (history : List Entry) : List Invocation := history.filterMap Entry.invocation?

def repliesTo (history : List Entry) (client : Nat) : List Reply :=
  history.filterMap (Entry.replyTo? client)

@[simp] lemma invocations_nil : invocations [] = [] := rfl

@[simp] lemma repliesTo_nil (client : Nat) : repliesTo [] client = [] := rfl

@[simp] lemma invocations_append (h es : List Entry) :
    invocations (h ++ es) = invocations h ++ invocations es := List.filterMap_append

@[simp] lemma repliesTo_append (h es : List Entry) (client : Nat) :
    repliesTo (h ++ es) client = repliesTo h client ++ repliesTo es client := List.filterMap_append

@[simp] lemma invocations_sent (e : Event) (c : Call) : invocations (Redis.sent e c) = [] := by
  unfold Redis.sent
  split <;> rfl

lemma mem_invocations {history : List Entry} {inv : Invocation} :
    inv ∈ invocations history ↔ .invoke inv.id inv.name inv.argv ∈ history := by
  unfold invocations
  rw [List.mem_filterMap]
  constructor
  · rintro ⟨entry, hentry, heq⟩
    unfold Entry.invocation? at heq
    split at heq <;> cases heq
    exact hentry
  · intro hmem
    exact ⟨_, hmem, rfl⟩

lemma repliesTo_map_reply (replies : List Reply) (client client' : Nat) :
    repliesTo (replies.map (Entry.reply client')) client =
      if client = client' then replies else [] := by
  unfold repliesTo
  rw [List.filterMap_map]
  by_cases hclient : client = client'
  · have hsome : Entry.replyTo? client ∘ Entry.reply client' = some := by
      funext r
      simp [Entry.replyTo?, hclient]
    rw [hsome, if_pos hclient, List.filterMap_some]
  · have hnone : Entry.replyTo? client ∘ Entry.reply client' = fun _ => none := by
      funext r
      simp [Entry.replyTo?, Ne.symm hclient]
    rw [hnone, if_neg hclient, List.filterMap_none]

@[simp] lemma invocations_map_reply (replies : List Reply) (client : Nat) :
    invocations (replies.map (Entry.reply client)) = [] := by
  unfold invocations
  rw [List.filterMap_map]
  exact List.filterMap_eq_nil_iff.mpr fun _ _ => rfl

lemma sent_eq {e : Event} (he : e.ctx = ⟨some e.id⟩) (c : Call) :
    Redis.sent e c = c.reply?.toList.map (Entry.reply e.id) := by
  unfold Redis.sent
  rw [he]
  cases c.reply? <;> rfl

lemma repliesTo_sent {e : Event} (he : e.ctx = ⟨some e.id⟩) (c : Call) (client : Nat) :
    repliesTo (Redis.sent e c) client = if client = e.id then c.reply?.toList else [] := by
  rw [sent_eq he, repliesTo_map_reply]

variable {n : Nat} {s s' : State n} {e : Event}

lemma invocations_released (he : e.Queued) : invocations (s.released e) = [] := by
  unfold State.released
  rw [he.destroy]
  split <;> rfl

lemma repliesTo_released (he : e.Queued) (client : Nat) : repliesTo (s.released e) client = [] := by
  unfold State.released
  rw [he.destroy]
  split <;> rfl

lemma invocations_dropped (he : e.Queued) :
    invocations ([.dropped e.id] ++ s.released e) = [] := by
  rw [invocations_append, invocations_released he]
  rfl

/-- The event that a handler has still to enqueue. -/
def Proc.coming : Proc → List Event
  | .construct id type argv => [Event.new id type ⟨some id⟩ argv false]
  | .enqueue e => [e]
  | _ => []

/-- Commands are numbered in the order in which they are accepted. -/
def State.Numbered (s : State n) : Prop :=
  (invocations s.redis.history).map Invocation.id = List.range s.nextId

/-- All commands so far satisfy `p`. -/
def State.Invoked (p : CommandName → List RedisModuleString → Prop) (s : State n) : Prop :=
  ∀ c ∈ invocations s.redis.history, p c.name c.argv

namespace State

lemma invocations_step [StringToLongLong] {l : Label n} (hs : StepCase s l s') :
    (∃ name argv, l = .command name argv ∧ s'.nextId = s.nextId + 1 ∧
      invocations s'.redis.history = invocations s.redis.history ++ [⟨s.nextId, name, argv⟩]) ∨
    ((∀ name argv, l ≠ .command name argv) ∧ s'.nextId = s.nextId ∧
      invocations s'.redis.history = invocations s.redis.history) := by
  have hstay : ∀ es, s'.redis.history = s.redis.history ++ es → invocations es = [] →
      invocations s'.redis.history = invocations s.redis.history := by
    intro es hhistory hes
    rw [hhistory, invocations_append, hes, List.append_nil]
  cases hs with
  | conc name argv | seq name argv =>
    exact .inl ⟨name, argv, rfl, rfl, invocations_append ..⟩
  | redis c | construct id type argv | builtin c | spin w => exact .inr ⟨nofun, rfl, rfl⟩
  | enqueue e | seqReturn e | dequeue w e | executed w e => exact .inr ⟨nofun, rfl, hstay _ rfl rfl⟩
  | ret e _ he =>
    exact .inr ⟨nofun, release_nextId .., hstay _ (release_history ..) (invocations_released he)⟩
  | mainCall e c k _ _ res redis hexec =>
    obtain ⟨lock, store, _, _, rfl⟩ := Redis.exec_eq_some hexec
    exact .inr ⟨nofun, rfl, hstay _ rfl (invocations_sent e c)⟩
  | workerCall w e c k _ _ res redis hexec =>
    obtain ⟨lock, store, _, _, rfl⟩ := Redis.exec_eq_some hexec
    exact .inr ⟨nofun, rfl, hstay _ rfl (invocations_sent e c)⟩
  | drop w e _ he =>
    refine .inr ⟨nofun, release_nextId .., hstay _ ?_ (invocations_dropped (s := s) he)⟩
    rw [release_history, record_history, List.append_assoc]
    rfl

lemma numbered_init (st : Store) : (init n st).Numbered := rfl

theorem Numbered.step [StringToLongLong] (h : s.Numbered) {l : Label n} (hs : StepCase s l s') :
    s'.Numbered := by
  unfold Numbered at h ⊢
  rcases invocations_step hs with ⟨name, argv, _, hnext, hinv⟩ | ⟨_, hnext, hinv⟩
  · rw [hinv, hnext, List.map_append, h, List.range_succ]
    rfl
  · rw [hinv, hnext, h]

lemma Numbered.nodup (h : s.Numbered) :
    ((invocations s.redis.history).map Invocation.id).Nodup := h ▸ List.nodup_range

lemma invoked_init (p : CommandName → List RedisModuleString → Prop) (st : Store) :
    (init n st).Invoked p := fun _ h => absurd h List.not_mem_nil

theorem Invoked.step [StringToLongLong] {p : CommandName → List RedisModuleString → Prop}
    (h : s.Invoked p) {l : Label n} (hl : ∀ name argv, l = .command name argv → p name argv)
    (hs : StepCase s l s') : s'.Invoked p := by
  unfold Invoked at h ⊢
  rcases invocations_step hs with ⟨name, argv, hcmd, _, hinv⟩ | ⟨_, _, hinv⟩
  · rw [hinv]
    intro c hc
    rcases List.mem_append.mp hc with hold | hnew
    · exact h c hold
    · rw [List.mem_singleton.mp hnew]
      exact hl name argv hcmd
  · rw [hinv]
    exact h

end State

/-- The command of an event at hand. -/
def Issued (good : Bool → EventType → List RedisModuleString → Prop) (history : List Entry)
    (id : Nat) (threadSafe : Bool) (type : EventType) (argv : List RedisModuleString) : Prop :=
  good threadSafe type argv ∧ ∃ inv ∈ invocations history,
    inv.id = id ∧ inv.name.event = type ∧ inv.argv = argv

lemma issued_step [StringToLongLong] {good : Bool → EventType → List RedisModuleString → Prop}
    {l : Label n} (hl : l.Issues good) (h : s.Carries (Issued good s.redis.history)) (hs : StepCase s l s') :
    s'.Carries (Issued good s'.redis.history) := by
  have hmono : ∀ inv ∈ invocations s.redis.history, inv ∈ invocations s'.redis.history := by
    intro inv hinv
    rcases State.invocations_step hs with ⟨_, _, _, _, heq⟩ | ⟨_, _, heq⟩ <;> rw [heq]
    · exact List.mem_append_left _ hinv
    · exact hinv
  have hcarries : s.Carries (Issued good s'.redis.history) :=
    h.mono fun _ _ _ _ ⟨hgood, inv, hinv, hevent⟩ => ⟨hgood, inv, hmono inv hinv, hevent⟩
  refine hcarries.step (fun name argv hcmd => ?_) hs
  subst hcmd
  refine ⟨hl, ⟨s.nextId, name, argv⟩, ?_, rfl, rfl, rfl⟩
  rcases State.invocations_step hs with ⟨_, _, heq, _, hinv⟩ | ⟨hne, _⟩
  · cases heq
    rw [hinv]
    simp
  · exact absurd rfl (hne name argv)

end RedPar
