import AspKernel.Serve
import AspKernel.Lib.Channel

namespace AspKernel
set_option autoImplicit true

open Channel (Chan)

/-- What a call does to an object that passes values on. -/
inductive Op (α : Type)
  | send (a : α)
  | force (a : α)
  | receive

/-- A kind of objects that pass values on: the queues of their waiting tasks, their calls, and where
the values are found. -/
structure Port (α κ : Type) where
  kind : WaitFactor
  sndq : Option WaitFactor
  rcvq : WaitFactor
  key : α → κ
  /-- The capacity of an object and the values that it holds. -/
  hold : Kernel → Nat → ℕ∞ × List α
  op : Kernel → Call → Option (ID × Op α)
  /-- The value with which a sender waits, the one that a receiver has got, and the result of a
  call. -/
  offer : WInfo → α
  taken : Kernel → WInfo → α
  result : Kernel → Out → Option α
  sndq_main : ∀ f, sndq = some f → ∀ i, WQueue.main (f, i) = (kind, i)
  rcvq_main : ∀ i, WQueue.main (rcvq, i) = (kind, i)
  sndq_ne : sndq ≠ some rcvq
  kind_ne : kind ≠ .MTX
  hold_core : ∀ k core, hold { k with core := core } = hold k
  /-- The attributes of the objects that are meant. -/
  fits : ATR → Prop
  op_ini : ∀ k call x, op k call = some x → call.ini = none
  op_object : ∀ k call id o, op k call = some (id, o) → call.object = some (.wobj kind, id)

namespace Port

variable {α κ : Type}

def buf (p : Port α κ) (k : Kernel) (i : Nat) : List α := (p.hold k i).2

/-- The tasks that wait with a value, in their order. -/
def senders (p : Port α κ) (c : Core) (i : Nat) : List Nat :=
  p.sndq.elim [] fun f => c.sched.queue (.wait (f, i))

def receivers (p : Port α κ) (c : Core) (i : Nat) : List Nat := c.sched.queue (.wait (p.rcvq, i))

/-- An object as a channel. -/
def chan (p : Port α κ) (k : Kernel) (i : Nat) : Chan Nat α where
  cap := (p.hold k i).1
  buf := p.buf k i
  snd := (p.senders k.core i).map fun t => (t, p.offer (k.core.tcb t).winfo)
  rcv := p.receivers k.core i

/-- The values of the senders that an event has released with `E_OK`. -/
def released (p : Port α κ) (i : Nat) (c c' : Core) : List α :=
  p.sndq.elim [] fun f => (c.served c' (f, i)).map fun t => p.offer (c.tcb t).winfo

/-- The values that an event has passed to receivers that were waiting. -/
def passed (p : Port α κ) (i : Nat) (k k' : Kernel) : List α :=
  (k.core.served k'.core (p.rcvq, i)).map fun t => p.taken k (k'.core.tcb t).winfo

/-- What a call has done to an object, where it returns `E_OK`. -/
def opOf (p : Port α κ) (i : Nat) (k : Kernel) (call : Call) (ercd : Option ER) : Option (Op α) :=
  match p.op k call with
  | some (id, o) => if id = toId i ∧ ercd = some E_OK then some o else none
  | none => none

/-- The values that go into an object and that come out of it in an event: those of the calls that
return `E_OK`, and those of the waits that end with `E_OK`. Where the object holds values, a
receiver takes the first one before a waiting sender fills the place; a forced send to a full object
takes the first one out. -/
def acts (p : Port α κ) (i : Nat) (k k' : Kernel) (o : Option (Op α)) (out : Out) :
    List (Channel.Act α) :=
  let released := (p.released i k.core k'.core).map .put
  let passed := (p.passed i k k').map .get
  let got := ((p.result k out).toList).map .get
  match o with
  | some (.send a) => .put a :: passed
  | some (.force a) =>
    if p.receivers k.core i = [] ∧ ¬(p.chan k i).room then
      ((p.buf k i).head?.toList.map .drop) ++ .put a :: passed
    else .put a :: passed
  | some .receive => if p.buf k i = [] then released ++ got else got ++ released
  | none => released ++ passed

def obs (p : Port α κ) (cfg : Cfg) (i : Nat) (k : Kernel) (e : Event) (k' : Kernel) :
    List (Channel.Act α) :=
  match e with
  | .call call =>
    let r := exec cfg k call
    p.acts i k k' (p.opOf i k call r.ercd) r.out
  | _ => p.acts i k k' none .none

/-- What a call does that names an object: its code and its result, and the state after it. -/
inductive Does (p : Port α κ) [LinearOrder κ] (k : Kernel) (call : Call) (id : ID) :
    Option ER → Out → Kernel → Prop
  | rest (hd : ercd ≠ some E_OK ∨ p.op k call = none ∧ call.ini = none) (hi : Idles k.core k'.core)
    (hh : p.hold k' (index id) = p.hold k (index id)) : Does p k call id ercd out k'
  | hand (ho : p.op k call = some (id, o)) (hv : toId (index id) = id)
    (hs : o = .send a ∨ o = .force a)
    (hd : Hands (p.rcvq, index id) t w k.core k'.core)
    (ha : p.taken k (k'.core.tcb t).winfo = a)
    (hh : p.hold k' (index id) = p.hold k (index id)) : Does p k call id (some E_OK) out k'
  | put (ho : p.op k call = some (id, o)) (hv : toId (index id) = id)
    (hs : o = .send a ∨ o = .force a)
    (hr : p.receivers k.core (index id) = []) (hb : (p.chan k (index id)).room)
    (hi : Idles k.core k'.core) (hh : p.hold k' (index id) =
      ((p.hold k (index id)).1, Channel.insert p.key a (p.buf k (index id)))) :
    Does p k call id (some E_OK) out k'
  | force (ho : p.op k call = some (id, .force a)) (hv : toId (index id) = id)
    (hr : p.receivers k.core (index id) = [])
    (hb : ¬(p.chan k (index id)).room) (hl : p.buf k (index id) = b :: l)
    (hi : Idles k.core k'.core)
    (hh : p.hold k' (index id) = ((p.hold k (index id)).1, Channel.insert p.key a l)) :
    Does p k call id (some E_OK) out k'
  | get (ho : p.op k call = some (id, .receive)) (hv : toId (index id) = id)
    (hs : p.senders k.core (index id) = []) (hl : p.buf k (index id) = b :: l)
    (hi : Idles k.core k'.core) (hb : p.result k out = some b)
    (hh : p.hold k' (index id) = ((p.hold k (index id)).1, l)) :
    Does p k call id (some E_OK) out k'
  | refill (ho : p.op k call = some (id, .receive)) (hv : toId (index id) = id)
    (hf : p.sndq = some f)
    (hd : Hands (f, index id) t w k.core k'.core) (hl : p.buf k (index id) = b :: l)
    (hb : p.result k out = some b) (hh : p.hold k' (index id) = ((p.hold k (index id)).1,
      Channel.insert p.key (p.offer (k.core.tcb t).winfo) l)) :
    Does p k call id (some E_OK) out k'
  | direct (ho : p.op k call = some (id, .receive)) (hv : toId (index id) = id)
    (hf : p.sndq = some f)
    (hd : Hands (f, index id) t w k.core k'.core) (hl : p.buf k (index id) = [])
    (hb : p.result k out = some (p.offer (k.core.tcb t).winfo))
    (hh : p.hold k' (index id) = p.hold k (index id)) : Does p k call id (some E_OK) out k'
  | send (ho : p.op k call = some (id, .send a)) (hf : p.sndq = some f)
    (hr : p.receivers k.core (index id) = []) (hb : ¬(p.chan k (index id)).room)
    (hd : Blocks (f, index id) t w k.core k'.core) (ha : p.offer (k'.core.tcb t).winfo = a)
    (hh : p.hold k' (index id) = p.hold k (index id)) : Does p k call id none out k'
  | receive (ho : p.op k call = some (id, .receive)) (hs : p.senders k.core (index id) = [])
    (hl : p.buf k (index id) = []) (hd : Blocks (p.rcvq, index id) t w k.core k'.core)
    (hh : p.hold k' (index id) = p.hold k (index id)) : Does p k call id none out k'

/-- A call has emptied an object, or deleted it. -/
structure Clears (p : Port α κ) (k : Kernel) (call : Call) (id : ID) (k' : Kernel) : Prop where
  call : call.ini = some (.wobj p.kind, toId (index id)) ∧ p.buf k' (index id) = [] ∨
    call.del = some (.wobj p.kind, toId (index id)) ∧ p.hold k' (index id) = p.hold k (index id)
  empty : p.senders k'.core (index id) = [] ∧ p.receivers k'.core (index id) = []

def Sat (p : Port α κ) [LinearOrder κ] (k : Kernel) (call : Call) (id : ID) (r : Res Kernel) : Prop :=
  p.Does k call id r.ercd r.out r.st ∨ p.Clears k call id r.st

section
variable {p : Port α κ} {k k' : Kernel} {c : Core} {call : Call} {id : ID} {i : Nat}
  {ercd : Option ER} {out : Out}

theorem senders_some (hf : p.sndq = some f) (c : Core) (i : Nat) :
    p.senders c i = c.sched.queue (.wait (f, i)) := by
  rw [senders, hf]
  rfl

theorem Does.alike [LinearOrder κ] (h : p.Does k call id ercd out k') {c : Core} (ha : k'.core.Alike c) :
    p.Does k call id ercd out { k' with core := c } := by
  have hold {x} (hh : p.hold k' (index id) = x) : p.hold { k' with core := c } (index id) = x := by
    rw [p.hold_core]
    exact hh
  cases h with
  | rest hd hi hh => exact .rest hd (hi.alike ha) (hold hh)
  | hand ho hv hs hd hw hh =>
    exact .hand ho hv hs (hd.alike ha) ((congrArg (p.taken k) (ha.winfo _)).trans hw) (hold hh)
  | put ho hv hs hr hb hi hh => exact .put ho hv hs hr hb (hi.alike ha) (hold hh)
  | force ho hv hr hb hl hi hh => exact .force ho hv hr hb hl (hi.alike ha) (hold hh)
  | get ho hv hs hl hi hb hh => exact .get ho hv hs hl (hi.alike ha) hb (hold hh)
  | refill ho hv hf hd hl hb hh => exact .refill ho hv hf (hd.alike ha) hl hb (hold hh)
  | direct ho hv hf hd hl hb hh => exact .direct ho hv hf (hd.alike ha) hl hb (hold hh)
  | send ho hf hr hb hd hw hh =>
    exact .send ho hf hr hb (hd.alike ha) ((congrArg p.offer (ha.winfo _)).trans hw) (hold hh)
  | receive ho hs hl hd hh => exact .receive ho hs hl (hd.alike ha) (hold hh)

theorem Clears.alike (h : p.Clears k call id k') {c : Core} (ha : k'.core.Alike c) :
    p.Clears k call id { k' with core := c } := by
  have hh : p.hold { k' with core := c } = p.hold k' := p.hold_core k' c
  refine ⟨?_, ?_, ?_⟩
  · unfold buf
    rw [hh]
    exact h.call
  · rw [← h.empty.1, senders, senders, ha.sched]
  · rw [← h.empty.2, receivers, receivers, ha.sched]

theorem Sat.err [LinearOrder κ] (p : Port α κ) (he : e ≠ E_OK) : p.Sat k call id (.err k e) :=
  .inl (.rest (.inl fun h => he (Option.some.inj h)) (.of_alike (.refl _)) rfl)

/-- A channel is given by what the object holds and by the tasks that wait for it. -/
theorem chan_eq (hh : p.hold k i = (n, l)) (hs : p.senders k.core i = s)
    (hw : ∀ t ∈ s, (k.core.tcb t).winfo = (c.tcb t).winfo) (hr : p.receivers k.core i = r) :
    p.chan k i = ⟨n, l, s.map fun t => (t, p.offer (c.tcb t).winfo), r⟩ := by
  unfold chan buf
  rw [hh, hs, hr]
  exact congrArg (Chan.mk n l · r) (List.map_congr_left fun t ht => by rw [hw t ht])

theorem opOf_some (ho : p.op k call = some (id, o)) (hv : toId (index id) = id) :
    p.opOf (index id) k call (some E_OK) = some o := by
  unfold opOf
  rw [ho]
  exact if_pos ⟨hv.symm, rfl⟩

theorem opOf_none (h : ercd ≠ some E_OK ∨ p.op k call = none) : p.opOf i k call ercd = none := by
  unfold opOf
  split
  · rename_i ho
    refine if_neg fun hn => ?_
    rcases h with h | h
    · exact h hn.2
    · rw [h] at ho
      cases ho
  · rfl

/-- The waiting tasks of an object after a change that serves none of them. -/
theorem chan_same (hh : p.hold k' i = (n, l)) (hi : Idles k.core k'.core) :
    p.chan k' i = ⟨n, l, (p.chan k i).snd, (p.chan k i).rcv⟩ := by
  refine chan_eq hh ?_ (fun t _ => hi.winfo t) (hi.queue _)
  unfold senders
  cases p.sndq with
  | none => rfl
  | some f => exact hi.queue _

theorem served_nil_acts (hs : p.released i k.core k'.core = []) (hr : p.passed i k k' = [])
    (out : Out) :
    p.acts i k k' none out = [] ∧ (∀ a, p.acts i k k' (some (.send a)) out = [.put a]) ∧
      p.acts i k k' (some .receive) out = ((p.result k out).toList).map .get := by
  unfold acts
  simp only [hs, hr, List.map_nil, List.append_nil, List.nil_append, ite_self, true_and,
    implies_true]

theorem released_nil (hs : ∀ f, p.sndq = some f → k.core.served k'.core (f, i) = []) :
    p.released i k.core k'.core = [] := by
  unfold released
  cases hf : p.sndq with
  | none => rfl
  | some f => exact congrArg _ (hs f hf)

theorem passed_nil (hs : k.core.served k'.core (p.rcvq, i) = []) : p.passed i k k' = [] :=
  congrArg _ hs

theorem rcvq_ne (hf : p.sndq = some f) (i : Nat) : (f, i) ≠ (p.rcvq, i) := by
  intro he
  injection he with he
  exact p.sndq_ne (he ▸ hf)

/-- The first of the waiting senders is released. -/
theorem chan_released (hi : CoreInv cfg noD k.core) (hf : p.sndq = some f)
    (hd : Hands (f, i) t w k.core k'.core) (hh : p.hold k' i = (n, l)) :
    p.released i k.core k'.core = [p.offer (k.core.tcb t).winfo] ∧ p.passed i k k' = [] ∧
      ∃ s, (p.chan k i).snd = (t, p.offer (k.core.tcb t).winfo) :: s ∧
        p.chan k' i = ⟨n, l, s, (p.chan k i).rcv⟩ := by
  obtain ⟨hq, hsv, hw⟩ := hd.tail hi
  have hne := (rcvq_ne hf i).symm
  refine ⟨?_, passed_nil (hd.rests hi hne).served,
    (p.senders k'.core i).map fun t => (t, p.offer (k.core.tcb t).winfo), ?_, ?_⟩
  · rw [released, hf]
    exact congrArg _ hsv
  · unfold chan
    rw [senders_some hf, senders_some hf, hq]
    rfl
  · refine chan_eq hh rfl ?_ (hd.off hi hne).1
    rw [senders_some hf]
    exact hw

/-- The first of the waiting receivers gets a value. -/
theorem chan_passed (hi : CoreInv cfg noD k.core) (hd : Hands (p.rcvq, i) t w k.core k'.core)
    (hh : p.hold k' i = (n, l)) :
    p.passed i k k' = [p.taken k (k'.core.tcb t).winfo] ∧
      ∃ r, (p.chan k i).rcv = t :: r ∧ p.chan k' i = ⟨n, l, (p.chan k i).snd, r⟩ := by
  obtain ⟨hq, hsv, -⟩ := hd.tail hi
  refine ⟨congrArg _ hsv, p.receivers k'.core i, hq, ?_⟩
  refine chan_eq hh (s := p.senders k.core i) ?_ ?_ rfl
  · unfold senders
    cases hf : p.sndq with
    | none => rfl
    | some f => exact (hd.off hi (rcvq_ne hf i)).1
  · unfold senders
    cases hf : p.sndq with
    | none => nofun
    | some f => exact (hd.off hi (rcvq_ne hf i)).2

/-- A call is a step of its channel. -/
theorem Does.step [LinearOrder κ] (h : p.Does k call id ercd out k')
    (hi : CoreInv cfg noD k.core) : Chan.Step p.key (p.chan k (index id))
    (p.acts (index id) k k' (p.opOf (index id) k call ercd) out) (p.chan k' (index id)) := by
  have idle (hid : Idles k.core k'.core) : p.released (index id) k.core k'.core = [] ∧
      p.passed (index id) k k' = [] :=
    ⟨released_nil fun f _ => (hid.rests hi _).served, passed_nil (hid.rests hi _).served⟩
  cases h with
  | rest hd hid hh =>
    rw [opOf_none (hd.imp_right And.left), (served_nil_acts (idle hid).1 (idle hid).2 _).1, chan_same hh hid]
    exact .rest (fun _ h => h) fun _ h => h
  | hand ho hv hs hd hw hh =>
    rename_i o a t w
    obtain ⟨hpass, r, hrcv, hchan⟩ := chan_passed hi hd hh
    rw [hw] at hpass
    have hne : p.receivers k.core (index id) ≠ [] :=
      fun he => List.cons_ne_nil t r (hrcv.symm.trans he)
    have hact : p.acts (index id) k k' (some o) out = [.put a, .get a] := by
      unfold acts
      rcases hs with rfl | rfl
      · rw [hpass]
        rfl
      · simp only [hpass, hne, false_and, if_false]
        rfl
    rw [opOf_some ho hv, hact, hchan]
    exact .hand hrcv
  | put ho hv hs hr hb hid hh =>
    rename_i o a
    have hact : p.acts (index id) k k' (some o) out = [.put a] := by
      rcases hs with rfl | rfl
      · exact (served_nil_acts (idle hid).1 (idle hid).2 _).2.1 a
      · unfold acts
        simp only [(idle hid).2, hb, not_true_eq_false, and_false, if_false]
        rfl
    rw [opOf_some ho hv, hact, chan_same hh hid]
    exact .put hr hb
  | force ho hv hr hb hlist hid hh =>
    rename_i a b l
    have hact : p.acts (index id) k k' (some (.force a)) out = [.drop b, .put a] := by
      unfold acts
      simp only [(idle hid).2, hb, hr, hlist, not_false_eq_true, and_self, if_true]
      rfl
    rw [opOf_some ho hv, hact, chan_same hh hid]
    exact .force hr hb hlist
  | get ho hv hs hlist hid hb hh =>
    rw [opOf_some ho hv, (served_nil_acts (idle hid).1 (idle hid).2 _).2.2, hb, chan_same hh hid]
    exact .get (by unfold chan; rw [hs]; rfl) hlist
  | refill ho hv hf hd hlist hb hh =>
    rename_i f t w b l
    obtain ⟨hrel, hpass, s, hsnd, hchan⟩ := chan_released hi hf hd hh
    have hact : p.acts (index id) k k' (some .receive) out =
        [.get b, .put (p.offer (k.core.tcb t).winfo)] := by
      unfold acts
      simp only [hrel, hb, hlist, if_neg (List.cons_ne_nil b l)]
      rfl
    rw [opOf_some ho hv, hact, hchan]
    exact .refill hsnd hlist
  | direct ho hv hf hd hlist hb hh =>
    rename_i f t w
    obtain ⟨hrel, hpass, s, hsnd, hchan⟩ := chan_released hi hf hd hh
    have hact : p.acts (index id) k k' (some .receive) out =
        [.put (p.offer (k.core.tcb t).winfo), .get (p.offer (k.core.tcb t).winfo)] := by
      unfold acts
      simp only [hrel, hb, hlist, if_true]
      rfl
    rw [opOf_some ho hv, hact, hchan]
    exact .direct hsnd hlist
  | send ho hf hr hb hd hw hh =>
    rename_i a f t w
    have hrel : p.released (index id) k.core k'.core = [] :=
      released_nil fun f _ => hd.served hi _
    have hr' : p.receivers k'.core (index id) = [] :=
      (hd.rests hi (rcvq_ne hf _).symm).queue_nil hr
    rw [opOf_none (.inl (Option.some_ne_none E_OK).symm),
      (served_nil_acts hrel (passed_nil (hd.served hi _)) _).1,
      chan_eq hh rfl (fun _ _ => rfl) (hr'.trans hr.symm)]
    refine .send (t := t) (a := a) hr hb fun x hx => ?_
    obtain ⟨u, hu, rfl⟩ := List.mem_map.1 hx
    rw [senders_some hf] at hu
    by_cases hut : u = t
    · subst hut
      exact .inr (Prod.ext rfl hw)
    · rw [hd.other u hut]
      refine .inl (List.mem_map_of_mem ?_)
      rw [senders_some hf]
      exact ((hd.mem _ u).1 hu).resolve_right fun hn => hut hn.2
  | receive ho hs hlist hd hh =>
    rename_i t w
    have hrel : p.released (index id) k.core k'.core = [] :=
      released_nil fun f _ => hd.served hi _
    have hs' : p.senders k'.core (index id) = [] := by
      unfold senders at hs ⊢
      cases hf : p.sndq with
      | none => rfl
      | some f =>
        rw [hf] at hs
        exact (hd.rests hi (rcvq_ne hf _)).queue_nil hs
    rw [opOf_none (.inl (Option.some_ne_none E_OK).symm),
      (served_nil_acts hrel (passed_nil (hd.served hi _)) _).1,
      chan_eq hh (hs'.trans hs.symm) (c := k.core) (by rw [hs]; exact fun _ => nofun) rfl]
    refine .receive (t := t) (by unfold chan; rw [hs]; rfl) hlist fun u hu => ?_
    exact ((hd.mem _ u).1 hu).imp_right And.right

theorem snd_rests (hs : ∀ f, p.sndq = some f → Rests (f, i) k.core k'.core) :
    ∀ x ∈ (p.chan k' i).snd, x ∈ (p.chan k i).snd := by
  intro x hx
  obtain ⟨u, hu, rfl⟩ := List.mem_map.1 hx
  unfold senders at hu
  cases hf : p.sndq with
  | none =>
    rw [hf] at hu
    cases hu
  | some f =>
    rw [hf] at hu
    obtain ⟨hm, hw⟩ := (hs f hf).mem u hu
    rw [hw]
    refine List.mem_map_of_mem (f := fun t => (t, p.offer (k.core.tcb t).winfo)) ?_
    rw [senders_some hf]
    exact hm

/-- No task completes its wait for an object in an event that does not name it. -/
theorem obs_other (h : Reachable cfg k) (hs : Step cfg k e k')
    (hn : ∀ call id, e = .call call → call.object = some (.wobj p.kind, id) → index id ≠ i) :
    p.obs cfg i k e k' = [] ∧ (∀ f, p.sndq = some f → Rests (f, i) k.core k'.core) ∧
      Rests (p.rcvq, i) k.core k'.core := by
  have hrest {f} (hm : WQueue.main (f, i) = (p.kind, i)) : Rests (f, i) k.core k'.core := by
    refine h.runInv.rests_other hs (q := (f, i)) ?_ fun call id he ho => ?_
    · rintro rfl
      exact p.kind_ne (congrArg Prod.fst hm).symm
    · rw [hm] at ho
      exact hn call id he ho
  have hsnd (f) (hf : p.sndq = some f) := hrest (p.sndq_main f hf i)
  have hrcv := hrest (p.rcvq_main i)
  have hacts := (served_nil_acts (p := p) (k := k)
    (released_nil fun f hf => (hsnd f hf).served) (passed_nil hrcv.served) .none).1
  refine ⟨?_, hsnd, hrcv⟩
  cases e with
  | call call =>
    have ho : p.opOf i k call (exec cfg k call).ercd = none := by
      unfold opOf
      split
      · rename_i id o ho
        refine if_neg fun hc => ?_
        exact hn call id rfl (p.op_object k call id o ho) (hc.1 ▸ index_toId i)
      · rfl
    refine (congrArg (p.acts i k k' · (exec cfg k call).out) ho).trans ?_
    exact (served_nil_acts (released_nil fun f hf => (hsnd f hf).served)
      (passed_nil hrcv.served) _).1
  | _ => exact hacts

/-- The tasks of a channel rest. -/
theorem chan_rests [LinearOrder κ] (hh : p.hold k' i = p.hold k i)
    (hs : ∀ f, p.sndq = some f → Rests (f, i) k.core k'.core)
    (hr : Rests (p.rcvq, i) k.core k'.core) :
    Chan.Step p.key (p.chan k i) [] (p.chan k' i) := by
  rw [chan_eq (p := p) hh rfl (fun _ _ => rfl) rfl]
  exact .rest (snd_rests hs) fun u hu => (hr.mem u hu).1

/-- What the calls, the creation and the other events do to the objects of a port, in the steps that
a restriction allows. -/
structure Sound (cfg : Cfg) (step : Kernel → Event → Option Kernel) (p : Port α κ)
    [LinearOrder κ] : Prop where
  within : Within cfg step
  call : ∀ k call k' id, ReachBy cfg step k → CallPre cfg k.core → step k (.call call) = some k' →
    k.core.atr (.wobj p.kind) (index id) ≠ TA_NOEXS →
    p.fits (k.core.atr (.wobj p.kind) (index id)) → call.object = some (.wobj p.kind, id) →
    p.Sat k call id (exec cfg k call)
  other : ∀ k e k' i, ReachBy cfg step k → step k e = some k' →
    k.core.atr (.wobj p.kind) i ≠ TA_NOEXS →
    (∀ call id, e = .call call → call.object = some (.wobj p.kind, id) → index id ≠ i) →
    p.fits (k.core.atr (.wobj p.kind) i) → p.hold k' i = p.hold k i
  start : ∀ i, p.buf (boot cfg) i = []
  new : ∀ k call k' i, ReachBy cfg step k → step k (.call call) = some k' →
    call.acre = some (.wobj p.kind) → k.core.atr (.wobj p.kind) i = TA_NOEXS →
    k'.core.atr (.wobj p.kind) i ≠ TA_NOEXS → p.buf k' i = []

/-- An object with no values and no waiting tasks. -/
theorem wf_empty (hb : p.buf k i = []) (hs : p.senders k.core i = [])
    (hr : p.receivers k.core i = []) : (p.chan k i).Wf := by
  refine ⟨?_, fun hn => absurd hr hn, fun hn => absurd ?_ hn⟩
  · unfold chan
    rw [hb]
    exact bot_le
  · unfold chan
    rw [hs]
    rfl

section
variable [LinearOrder κ] {next : Kernel → Event → Option Kernel} (hp : p.Sound cfg next)
include hp

theorem Sound.does (h : ReachBy cfg next k) (hs : next k (.call call) = some k')
    (hi : k.core.atr (.wobj p.kind) (index id) ≠ TA_NOEXS)
    (hf : p.fits (k.core.atr (.wobj p.kind) (index id)))
    (ho : call.object = some (.wobj p.kind, id)) :
    p.Does k call id (exec cfg k call).ercd (exec cfg k call).out k' ∨ p.Clears k call id k' := by
  obtain ⟨hc, hk⟩ := step_call (hp.within _ _ _ hs)
  have hcall := hp.call k call k' id h ((h.reachable hp.within).runInv.callPre hc.1) hs hi hf ho
  rw [hk, settle_eq]
  have ha := settle_alike (exec cfg k call)
  exact hcall.imp (·.alike ha) (·.alike ha)

/-- A step of the kernel is a step of the channel. -/
theorem Sound.step (h : ReachBy cfg next k) (hs : next k e = some k')
    (hi : k.core.atr (.wobj p.kind) i ≠ TA_NOEXS) (hf : p.fits (k.core.atr (.wobj p.kind) i))
    (hl : e.leaves (.wobj p.kind) i) :
    Chan.Step p.key (p.chan k i) (p.obs cfg i k e k') (p.chan k' i) := by
  by_cases hn : ∀ call id, e = .call call → call.object = some (.wobj p.kind, id) → index id ≠ i
  · obtain ⟨ho, hsnd, hrcv⟩ := obs_other (h.reachable hp.within) (hp.within _ _ _ hs) hn
    rw [ho]
    exact chan_rests (hp.other k e k' i h hs hi hn hf) hsnd hrcv
  · push Not at hn
    obtain ⟨call, id, rfl, ho, rfl⟩ := hn
    rcases hp.does h hs hi hf ho with hd | hc
    · exact hd.step (h.reachable hp.within).runInv.inv
    · rcases hc.call with ⟨hc, _⟩ | ⟨hc, _⟩
      · exact absurd hc (hl call rfl).2
      · exact absurd hc (hl call rfl).1

/-- No receiver waits where there is a value for it, and no sender where there is room. -/
theorem Sound.wf (h : ReachBy cfg next k) (hi : k.core.atr (.wobj p.kind) i ≠ TA_NOEXS)
    (hf : p.fits (k.core.atr (.wobj p.kind) i)) : (p.chan k i).Wf := by
  refine h.objects hp.within (f := p.kind)
    (I := fun k i => p.fits (k.core.atr (.wobj p.kind) i) → (p.chan k i).Wf) p.kind_ne
    (fun i _ _ => ?_) (fun k k' e i h hs hi ha hn hv hf => ?_)
    (fun k k' call id h hs ho hi ha hv hf => ?_) (fun k k' call i h hs hc hi hi' hf => ?_) hi hf
  · refine wf_empty (hp.start i) ?_ (boot_queue cfg _)
    unfold senders
    cases p.sndq with
    | none => rfl
    | some f => exact boot_queue cfg _
  · rw [ha] at hf
    obtain ⟨-, hsnd, hrcv⟩ := obs_other (h.reachable hp.within) (hp.within _ _ _ hs) hn
    exact (hv hf).step (chan_rests (hp.other k e k' i h hs hi hn hf) hsnd hrcv)
  · rw [ha] at hf
    rcases hp.does h hs hi hf ho with hd | hc
    · exact (hv hf).step (hd.step (h.reachable hp.within).runInv.inv)
    · rcases hc.call with ⟨_, hb⟩ | ⟨_, hh⟩
      · exact wf_empty hb hc.empty.1 hc.empty.2
      · refine ⟨?_, fun hn => absurd hc.empty.2 hn, fun hn => absurd ?_ hn⟩
        · unfold chan buf
          rw [hh]
          exact (hv hf).le
        · unfold chan
          rw [hc.empty.1]
          rfl
  · obtain ⟨-, -, -, -, -, -, -, hq⟩ := (h.reachable hp.within).created (hp.within _ _ _ hs) hi hi' p.kind_ne
    refine wf_empty (hp.new k call k' i h hs hc hi hi') ?_ (hq _ (p.rcvq_main i))
    unfold senders
    cases hf : p.sndq with
    | none => rfl
    | some f => exact hq _ (p.sndq_main f hf i)

/-- An object that is initialised again holds no value. -/
theorem Sound.cleared (h : ReachBy cfg next k) (hs : next k (.call call) = some k')
    (hi : k.core.atr (.wobj p.kind) i ≠ TA_NOEXS) (hf : p.fits (k.core.atr (.wobj p.kind) i))
    (hc : call.ini = some (.wobj p.kind, toId i)) (hok : (exec cfg k call).ercd = some E_OK) :
    p.buf k' i = [] := by
  obtain ⟨ho, hd⟩ := Call.object_of_ini hc
  have hop (x) : p.op k call ≠ some x := fun hop => by
    rw [p.op_ini k call x hop] at hc
    cases hc
  rw [← index_toId i] at hi hf ⊢
  rcases hp.does h hs hi hf ho with hdo | hcl
  · rw [hok] at hdo
    cases hdo with
    | rest hn =>
      rcases hn with hn | ⟨_, hn⟩
      · exact absurd rfl hn
      · rw [hn] at hc
        cases hc
    | hand ho | put ho | force ho | get ho | refill ho | direct ho => exact absurd ho (hop _)
  · rcases hcl.call with ⟨_, hb⟩ | ⟨hdel, _⟩
    · exact hb
    · rw [hd] at hdel
      cases hdel

/-- The values that go into an object and come out of it in a run. -/
theorem Sound.run [DecidableEq α] (h : ReachBy cfg next k)
    (hi : k.core.atr (.wobj p.kind) i ≠ TA_NOEXS) (hf : p.fits (k.core.atr (.wobj p.kind) i))
    (hr : Trans.Run (fun s e t => next s e = some t) k es k') (hl : ∀ e ∈ es, e.leaves (.wobj p.kind) i) :
    Channel.run p.key (p.buf k i) (Trans.observe next (p.obs cfg i) k es) =
      some (p.buf k' i) := by
  refine (Trans.Run.observed _ (I := ReachBy cfg next)
    (P := fun e => e.leaves (.wobj p.kind) i)
    (R := fun s l t => t.core.atr (.wobj p.kind) i = k.core.atr (.wobj p.kind) i ∧
      Channel.run p.key (p.buf s i) l = some (p.buf t i)) hr hl (fun t e u ht hs => ht.snoc hs) h
    ⟨rfl, rfl⟩ fun t e u l ht he hR hs => ?_).2
  obtain ⟨ha, hrun⟩ := hR
  rw [← ha] at hi hf
  refine ⟨((ht.reachable hp.within).atr_keep (hp.within _ _ _ hs) hi fun call hc => (he call hc).1).trans ha, ?_⟩
  rw [Channel.run_append hrun]
  exact (hp.wf ht hi hf).run (hp.step ht hs hi hf he)

end

/-- What a call does to the control block `cb` of the object that it names, which `Wf` holds of. -/
structure CallOn [LinearOrder κ] (p : Port α κ) (cb : Kernel → Nat → β) (Wf : β → Prop)
    (k : Kernel) (call : Call) (id : ID) (r : Res Kernel) : Prop where
  does : Wf (cb k (index id)) → p.Sat k call id r
  wf : Wf (cb k (index id)) → Wf (cb r.st (index id))
  other : ∀ j ≠ index id, cb r.st j = cb k j

/-- A port whose values are in the control blocks of its objects. -/
structure On [LinearOrder κ] (cfg : Cfg) (p : Port α κ) (cb : Kernel → Nat → β) (Wf : β → Prop)
    (view : β → ℕ∞ × List α) : Prop where
  hold : ∀ k i, p.hold k i = view (cb k i)
  outside : ∀ k core msg, cb { k with core := core, msg := msg } = cb k
  call : ∀ k call id, CallPre cfg k.core → call.object = some (.wobj p.kind, id) →
    p.CallOn cb Wf k call id (exec cfg k call)
  acre : ∀ k call, (∀ i ∈ k.core.freeWobj p.kind, i < (cfg.num (.wobj p.kind)).tmax) →
    call.acre = some (.wobj p.kind) → (∃ e, exec cfg k call = .err k e) ∨
    ∃ i l b, k.core.freeWobj p.kind = i :: l ∧
      cb (exec cfg k call).st = Function.update (cb k) i b ∧ Wf b ∧ (view b).2 = []
  other : ∀ k call, (∀ id, call.object ≠ some (.wobj p.kind, id)) →
    call.acre ≠ some (.wobj p.kind) → cb (exec cfg k call).st = cb k
  start : ∀ i, Wf (cb (boot cfg) i) ∧ (view (cb (boot cfg) i)).2 = []

section
variable [LinearOrder κ] {cb : Kernel → Nat → β} {Wf : β → Prop} {view : β → ℕ∞ × List α}

theorem CallOn.same (hs : cb r.st = cb k) (h : p.Sat k call id r) : p.CallOn cb Wf k call id r :=
  ⟨fun _ => h, fun hw => hs ▸ hw, fun j _ => congrFun hs j⟩

theorem CallOn.update (hs : cb r.st = Function.update (cb k) (index id) b)
    (h : Wf (cb k (index id)) → Wf b ∧ (cb r.st (index id) = b → p.Sat k call id r)) :
    p.CallOn cb Wf k call id r := by
  have hp : cb r.st (index id) = b := by rw [hs, Function.update_self]
  refine ⟨fun hw => (h hw).2 hp, fun hw => hp ▸ (h hw).1, fun j hj => ?_⟩
  rw [hs, Function.update_of_ne hj]

theorem CallOn.err (he : e ≠ E_OK) : p.CallOn cb Wf k call id (.err k e) := .same rfl (.err _ he)

variable (ho : p.On cfg cb Wf view)
include ho

theorem On.blocked : Blocked cfg p.kind cb where
  outside := ho.outside
  named k call id h hc := (ho.call k call id h hc).other
  created k call h hc := (ho.acre k call h hc).imp_right fun ⟨i, l, _, hf, he, _⟩ =>
    ⟨i, l, hf, fun _ hj => (congrFun he _).trans (Function.update_of_ne hj ..)⟩
  other := ho.other

/-- The control block of a new object. -/
theorem On.new (h : Reachable cfg k) (hs : Step cfg k e k')
    (hi : k.core.atr (.wobj p.kind) i = TA_NOEXS) (hi' : k'.core.atr (.wobj p.kind) i ≠ TA_NOEXS) :
    Wf (cb k' i) ∧ (view (cb k' i)).2 = [] := by
  obtain ⟨call, rfl, hc, -, hk, ⟨l, hf⟩, herr, -⟩ := h.created hs hi hi' p.kind_ne
  rcases ho.acre k call (fun i hi => (h.range (.wobj p.kind) i hi).2) hc with
    ⟨e, he⟩ | ⟨j, l', b, hfj, he, hb⟩
  · exact absurd he (herr e)
  · obtain rfl : j = i := (List.cons.inj (hfj.symm.trans hf)).1
    have hcb : cb k' j = b := by
      rw [hk, settle_eq]
      refine (congrFun (ho.outside (exec cfg k call).st _ _) j).trans ?_
      rw [he, Function.update_self]
    rw [hcb]
    exact hb

theorem On.wf (h : Reachable cfg k) (hi : k.core.atr (.wobj p.kind) i ≠ TA_NOEXS) :
    Wf (cb k i) := by
  refine h.objects (f := p.kind) (I := fun k i => Wf (cb k i)) p.kind_ne (fun i _ => (ho.start i).1)
    (fun k k' e i h hs hi ha hn hv => ?_) (fun k k' call id h hs hc hi ha hv => ?_)
    (fun k k' call i h hs hc hi hi' => (ho.new h hs hi hi').1) hi
  · rw [ho.blocked.keep h hs hi hn]
    exact hv
  · obtain ⟨hp, rfl⟩ := step_call hs
    rw [settle_eq]
    have hcb := ho.outside (exec cfg k call).st (exec cfg k call).settle.core (exec cfg k call).st.msg
    exact (congrFun hcb (index id)).symm ▸ (ho.call k call id (h.runInv.callPre hp.1) hc).wf hv

theorem On.sound : p.Sound cfg (Kernel.step cfg) where
  within _ _ _ hs := hs
  call k call k' id h hc _ hi _ hobj := (ho.call k call id hc hobj).does (ho.wf h hi)
  other k e k' i h hs hi hn _ := by
    rw [ho.hold, ho.hold, ho.blocked.keep h hs hi hn]
  start i := by
    unfold buf
    rw [ho.hold]
    exact (ho.start i).2
  new k call k' i h hs _ hi hi' := by
    unfold buf
    rw [ho.hold]
    exact (ho.new h hs hi hi').2

end

end

end Port

end AspKernel
