import AspKernel.MbfInv

/-! What an event does: what is sent and received, who goes first, and who waits on. -/

namespace AspKernel.Mbf
set_option autoImplicit true

/-- The sends on a buffer that have succeeded, and the receptions. -/
def sentOn (b : Nat) (l : List Ended) : List (Nat × List Byte) :=
  l.filterMap fun
    | .sent t b' msg => if b' = b then some (t, msg) else none
    | _ => none

def receivedOn (b : Nat) (l : List Ended) : List (Nat × List Byte) :=
  l.filterMap fun
    | .received t b' msg => if b' = b then some (t, msg) else none
    | _ => none

/-- The sends of a task that have ended, and the one for which it waits. -/
def sendsOf (t : Nat) (l : List Ended) : List (Nat × List Byte) :=
  l.filterMap fun
    | .sent t' b msg => if t' = t then some (b, msg) else none
    | .sendFailed t' b msg _ => if t' = t then some (b, msg) else none
    | _ => none

def TCB.pending (p : TCB) : List (Nat × List Byte) :=
  if p.tstat = .waitSmbf then [(p.winfo.mbfcb, p.winfo.msg)] else []

def K.pending (k : K) (t : Nat) : List (Nat × List Byte) := (k.tcb t).pending

@[simp] theorem sentOn_append : sentOn b (l ++ l') = sentOn b l ++ sentOn b l' :=
  List.filterMap_append

@[simp] theorem receivedOn_append : receivedOn b (l ++ l') = receivedOn b l ++ receivedOn b l' :=
  List.filterMap_append

@[simp] theorem sendsOf_append : sendsOf t (l ++ l') = sendsOf t l ++ sendsOf t l' :=
  List.filterMap_append

@[simp] theorem sentOn_sent : sentOn b [.sent t b msg] = [(t, msg)] := by
  simp only [sentOn, List.filterMap_cons, ↓reduceIte, List.filterMap_nil]

theorem sentOn_sent_ne (h : b' ≠ b) : sentOn b [.sent t b' msg] = [] := by
  simp only [sentOn, List.filterMap_cons, h, ↓reduceIte, List.filterMap_nil]

@[simp] theorem receivedOn_received : receivedOn b [.received t b msg] = [(t, msg)] := by
  simp only [receivedOn, List.filterMap_cons, ↓reduceIte, List.filterMap_nil]

theorem receivedOn_received_ne (h : b' ≠ b) : receivedOn b [.received t b' msg] = [] := by
  simp only [receivedOn, List.filterMap_cons, h, ↓reduceIte, List.filterMap_nil]

@[simp] theorem sentOn_sendFailed : sentOn b [.sendFailed t b' msg e] = [] := rfl
@[simp] theorem sentOn_received : sentOn b [.received t b' msg] = [] := rfl
@[simp] theorem sentOn_receiveFailed : sentOn b [.receiveFailed t b' e] = [] := rfl
@[simp] theorem receivedOn_sent : receivedOn b [.sent t b' msg] = [] := rfl
@[simp] theorem receivedOn_sendFailed : receivedOn b [.sendFailed t b' msg e] = [] := rfl
@[simp] theorem receivedOn_receiveFailed : receivedOn b [.receiveFailed t b' e] = [] := rfl
@[simp] theorem sendsOf_received : sendsOf t [.received t' b msg] = [] := rfl
@[simp] theorem sendsOf_receiveFailed : sendsOf t [.receiveFailed t' b e] = [] := rfl

/-- A call of `me` to send. -/
def ask (me b : Nat) (msg : List Byte) (t : Nat) : List (Nat × List Byte) :=
  if t = me then [(b, msg)] else []

theorem sendsOf_sent : sendsOf t [.sent me b msg] = ask me b msg t := by
  by_cases h : me = t
  · simp only [sendsOf, ask, List.filterMap_cons, h, ↓reduceIte, List.filterMap_nil]
  · simp only [sendsOf, ask, List.filterMap_cons, h, Ne.symm h, ↓reduceIte, List.filterMap_nil]

theorem sendsOf_sendFailed : sendsOf t [.sendFailed me b msg e] = ask me b msg t := by
  by_cases h : me = t
  · simp only [sendsOf, ask, List.filterMap_cons, h, ↓reduceIte, List.filterMap_nil]
  · simp only [sendsOf, ask, List.filterMap_cons, h, Ne.symm h, ↓reduceIte, List.filterMap_nil]

section
variable (cfg : Cfg) (m : Option Nat) (k k' : K) (b : Nat)

/-- The senders that an event lets through, in front of those that wait on: the queue, without a
task that leaves it, or with a task that joins it, or with a task in its new place, or behind a task
that need not wait. The event changes the priority of the task `m`. -/
inductive Turn : List Nat → Prop
  | stay : Turn (k.swaits b)
  | leave : Turn ((k.swaits b).erase t)
  | move : (cfg.mbfinib b).mbfatr.has TA_TPRI = true → m = some t →
    (∀ u ∈ (k.swaits b).erase t, (k'.tcb u).priority = (k.tcb u).priority) →
    Turn (k'.queueInsertTpri t ((k.swaits b).erase t))
  | join : (cfg.mbfinib b).mbfatr.has TA_TPRI = true → t ∉ k.swaits b →
    (∀ u ∈ k.swaits b, (k'.tcb u).priority = (k.tcb u).priority) →
    Turn (k'.queueInsertTpri t (k.swaits b))
  | last : (cfg.mbfinib b).mbfatr.has TA_TPRI = false → t ∉ k.swaits b →
    Turn (k.swaits b ++ [t])
  | first : ((cfg.mbfinib b).mbfatr.has TA_TPRI = false → k.swaits b = []) →
    (∀ u ∈ k.swaits b, (k'.tcb t).priority < (k'.tcb u).priority) → Turn (t :: k.swaits b)

/-- What an event with the outcome `l` does to a buffer, which it initialises if `I`, and where it
leaves a sender behind that could proceed if `S`. -/
structure At (S I : Prop) (l : List Ended) : Prop where
  stored : ¬I → k.stored cfg b ++ (sentOn b l).map Prod.snd =
    (receivedOn b l).map Prod.snd ++ k'.stored cfg b
  line : ¬I → Turn cfg m k k' b ((sentOn b l).map Prod.fst ++ k'.swaits b)
  init : I → sentOn b l = [] ∧ receivedOn b l = [] ∧ k'.stored cfg b = [] ∧ k'.swaits b = []
  prompt : Prompt k b → (Prompt k' b ↔ ¬S)

/-- An event with the calls `a` to send. -/
structure Acted (a : Nat → List (Nat × List Byte)) (S I : Nat → Prop) : Prop where
  inv : Inv cfg [] k'
  act : ∃ l, k'.ended = k.ended ++ l ∧ (∀ t, k.pending t ++ a t = sendsOf t l ++ k'.pending t) ∧
    ∀ b, At cfg m k k' b (S b) (I b) l

end

/-- A buffer that the event leaves alone. -/
theorem At.frame (hm : k'.mbfcb b = k.mbfcb b) (hs : sentOn b l = []) (hr : receivedOn b l = [])
    (hmsg : ∀ t ∈ k.swaits b, k'.msg t = k.msg t) : At cfg m k k' b False False l := by
  have hsw : k'.swaits b = k.swaits b := congrArg MBFCB.swaitQueue hm
  refine ⟨fun _ => ?_, fun _ => ?_, False.elim, fun hp => ⟨fun _ => id, fun _ t q hq => ?_⟩⟩
  · rw [hs, hr, K.stored, K.stored, hm]
    exact List.append_nil _
  · rw [hs, hsw]
    exact .stay
  · rw [hsw] at hq
    rw [hm, hmsg t (hq ▸ List.mem_cons_self)]
    exact hp t q hq

theorem sentOn_map (f : Nat → List Byte) (ts : List Nat) :
    sentOn b (ts.map fun t => .sent t b (f t)) = ts.map fun t => (t, f t) := by
  simp only [sentOn, List.filterMap_map, Function.comp_def, ↓reduceIte, List.filterMap_eq_map']

theorem sentOn_map_ne (f : Nat → List Byte) (ts : List Nat) (h : b' ≠ b) :
    sentOn b (ts.map fun t => .sent t b' (f t)) = [] := by
  simp only [sentOn, List.filterMap_map, Function.comp_def, h, ↓reduceIte, List.filterMap_none]

theorem receivedOn_map (f : Nat → List Byte) (ts : List Nat) :
    receivedOn b (ts.map fun t => .sent t b' (f t)) = [] := by
  simp only [receivedOn, List.filterMap_map, Function.comp_def, List.filterMap_none]

theorem sendsOf_map {ts : List Nat} (f : Nat → List Byte) (hn : ts.Nodup) :
    sendsOf t (ts.map fun t => .sent t b (f t)) = if t ∈ ts then [(b, f t)] else [] := by
  induction ts with
  | nil => rfl
  | cons u ts ih =>
    obtain ⟨hu, hn⟩ := List.nodup_cons.1 hn
    rw [List.map_cons, ← List.singleton_append, sendsOf_append, ih hn, sendsOf_sent, ask]
    by_cases htu : t = u
    · subst htu
      simp only [↓reduceIte, hu, List.append_nil, List.mem_cons_self]
    · simp only [htu, ↓reduceIte, List.nil_append, List.mem_cons, false_or]

theorem K.pending_nil {k : K} (h : (k.tcb t).tstat ≠ .waitSmbf) : k.pending t = [] := if_neg h

theorem Signalled.msg (hs : Signalled cfg b k k' ts) : k'.msg = k.msg := by
  funext t
  unfold K.msg
  rw [hs.tcb]
  split
  · rfl
  · rfl

theorem Signalled.priority (hs : Signalled cfg b k k' ts) (t : Nat) :
    (k'.tcb t).priority = (k.tcb t).priority := by
  rw [hs.tcb]
  split
  · rfl
  · rfl

/-- The sends of the tasks that wait no longer have ended. -/
theorem Signalled.calls (hs : Signalled cfg b k k' ts) (h : Inv cfg x k) (t : Nat) :
    k.pending t = sendsOf t (ts.map fun t => .sent t b (k.msg t)) ++ k'.pending t := by
  have hn := h.swait.nodup b
  rw [hs.queue] at hn
  rw [sendsOf_map _ hn.of_append_left, K.pending, K.pending, hs.tcb]
  split
  · rename_i ht
    have hq : t ∈ k.swaits b := hs.queue ▸ List.mem_append_left _ ht
    obtain ⟨-, htst, hmbf⟩ := h.mem_swaits.1 hq
    rw [TCB.pending, if_pos htst, hmbf]
    rfl
  · rfl

/-- The queue is served somewhere in an event. -/
theorem Signalled.at (hs : Signalled cfg b k₁ k₂ ts) (hmsg : k'.msg = k₁.msg)
    (hm : k'.mbfcb b = k₂.mbfcb b) (h₁ : sentOn b l₁ = []) (h₂ : sentOn b l₂ = [])
    (hr : receivedOn b l₂ = [])
    (hst : k.stored cfg b = (receivedOn b l₁).map Prod.snd ++ k₁.stored cfg b)
    (hl : Turn cfg m k k' b (k₁.swaits b)) :
    At cfg m k k' b False False (l₁ ++ ts.map (fun t => .sent t b (k₁.msg t)) ++ l₂) := by
  have hk : k'.stored cfg b = k₂.stored cfg b := by
    unfold K.stored
    rw [hm]
  have hsw : k'.swaits b = k₂.swaits b := congrArg MBFCB.swaitQueue hm
  refine ⟨fun _ => ?_, fun _ => ?_, False.elim, fun _ => ⟨fun _ => id, fun _ t q hq => ?_⟩⟩
  · simp only [sentOn_append, h₁, h₂, sentOn_map, receivedOn_append, receivedOn_map, hr,
      List.append_nil, List.nil_append, hst, hk, hs.stored, List.map_map, List.append_assoc]
    rfl
  · simp only [sentOn_append, h₁, h₂, sentOn_map, List.append_nil, List.nil_append, List.map_map,
      hsw]
    rw [hs.queue] at hl
    simpa only [Function.comp_def, List.map_id'] using hl
  · rw [hsw] at hq
    rw [hm, hmsg, ← hs.msg]
    exact hs.prompt t q hq

end AspKernel.Mbf
