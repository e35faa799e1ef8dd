import AspKernel.Lib.Links
import Mathlib.Data.ENat.Basic
import Mathlib.Data.List.Sort

/-!
Bounded buffers with waiting senders and receivers. A value goes in behind the values whose key
is not greater, and the first value comes out.
-/

namespace Channel
set_option autoImplicit true

/-- What happens to a value: it goes in, it comes out, or it comes out without a receiver. -/
inductive Act (α : Type)
  | put (a : α)
  | get (a : α)
  | drop (a : α)
  deriving DecidableEq

section
variable {α κ : Type} [LinearOrder κ] {key : α → κ} {l l' : List α}

/-- Insertion before the first value of a greater key. -/
def insert (key : α → κ) (a : α) (l : List α) : List α :=
  Links.insertBy (fun a b => decide (key a < key b)) a l

def Sorted (key : α → κ) (l : List α) : Prop := l.Pairwise fun a b => key a ≤ key b

theorem insert_perm (key : α → κ) (a : α) (l : List α) : (insert key a l).Perm (a :: l) :=
  Links.insertBy_perm _ a l

theorem insert_length (key : α → κ) (a : α) (l : List α) :
    (insert key a l).length = l.length + 1 := (insert_perm key a l).length_eq

theorem insert_eq (key : α → κ) (a : α) (l : List α) : insert key a l =
    l.takeWhile (fun b => !decide (key a < key b)) ++
      a :: l.dropWhile fun b => !decide (key a < key b) := by
  induction l with
  | nil => rfl
  | cons b l ih =>
    unfold insert Links.insertBy
    split
    · rename_i h
      rw [List.takeWhile_cons_of_neg (by simpa using of_decide_eq_true h),
        List.dropWhile_cons_of_neg (by simpa using of_decide_eq_true h)]
      rfl
    · rename_i h
      rw [List.takeWhile_cons_of_pos (by simpa using h), List.dropWhile_cons_of_pos (by simpa using h)]
      exact congrArg _ ih

theorem Sorted.insert (h : Sorted key l) (a : α) : Sorted key (Channel.insert key a l) :=
  Links.insertBy_pairwise h (fun _ _ => le_trans) (fun _ _ hb => (of_decide_eq_true hb).le)
    fun _ _ hb => not_lt.1 (of_decide_eq_false hb)

theorem insert_append (h : ∀ b ∈ l, key b ≤ key a) : Channel.insert key a l = l ++ [a] := by
  induction l with
  | nil => rfl
  | cons b l ih =>
    unfold Channel.insert Links.insertBy
    rw [if_neg (by simpa using h b (List.mem_cons_self ..)), List.cons_append]
    exact congrArg _ (ih fun c hc => h c (List.mem_cons_of_mem _ hc))

/-- Among the values of one key a new one is the last. -/
theorem insert_filter (h : Sorted key l) (a : α) (p : κ) :
    (Channel.insert key a l).filter (key · = p) = (l ++ [a]).filter (key · = p) := by
  induction l with
  | nil => rfl
  | cons b l ih =>
    obtain ⟨hb, hl⟩ := List.pairwise_cons.1 h
    unfold Channel.insert Links.insertBy
    split
    · rename_i hab
      have hlt := of_decide_eq_true hab
      by_cases hp : key a = p
      · have hn : (b :: l).filter (key · = p) = [] := by
          refine List.filter_eq_nil_iff.2 fun c hc he => ?_
          have hge : key b ≤ key c := by
            rcases List.mem_cons.1 hc with rfl | hc
            · exact le_refl _
            · exact hb c hc
          exact absurd (hp.trans (of_decide_eq_true he).symm) (hlt.trans_le hge).ne
        rw [List.filter_append, hn, List.filter_cons_of_pos (by simpa using hp), hn,
          List.filter_cons_of_pos (by simpa using hp)]
        rfl
      · rw [List.filter_append, List.filter_cons_of_neg (by simpa using hp),
          List.filter_cons_of_neg (p := (key · = p)) (a := a) (l := []) (by simpa using hp),
          List.filter_nil, List.append_nil]
    · have he := ih hl
      unfold Channel.insert at he
      rw [List.cons_append, List.filter_cons, List.filter_cons, he]

variable [DecidableEq α]

def Act.apply (key : α → κ) (l : List α) : Act α → Option (List α)
  | .put a => some (insert key a l)
  | .get a | .drop a => if l.head? = some a then some l.tail else none

/-- The contents of a buffer after some actions, where they are possible. -/
def run (key : α → κ) (l : List α) (acts : List (Act α)) : Option (List α) :=
  acts.foldlM (Act.apply key) l

def Act.put? : Act α → Option α
  | .put a => some a
  | _ => none

def Act.out? : Act α → Option α
  | .get a | .drop a => some a
  | .put _ => none

/-- The values that go in, and those that come out. -/
def puts (acts : List (Act α)) : List α := acts.filterMap Act.put?
def outs (acts : List (Act α)) : List α := acts.filterMap Act.out?

theorem run_append {acts acts' : List (Act α)} (h : run key l acts = some l') :
    run key l (acts ++ acts') = run key l' acts' := by
  unfold run at *
  rw [List.foldlM_append, h]
  rfl

/-- One action leaves the values that it does not take out, sorted, with the new one the last of its
key. -/
theorem Act.apply_spec {x : Act α} (h : x.apply key l = some l') (hs : Sorted key l) :
    Sorted key l' ∧ (l ++ (x.put?).toList).Perm ((x.out?).toList ++ l') ∧
      ∀ p, (l ++ (x.put?).toList).filter (key · = p) = ((x.out?).toList ++ l').filter (key · = p) := by
  have hout {a : α} (h : (if l.head? = some a then some l.tail else none) = some l') :
      l = a :: l' := by
    split at h
    · rename_i hh
      cases h
      exact (List.cons_head?_tail hh).symm
    · cases h
  cases x with
  | put a =>
    cases h
    refine ⟨hs.insert a, ?_, fun p => (insert_filter hs a p).symm⟩
    exact (List.perm_append_singleton a l).trans (insert_perm key a l).symm
  | get a | drop a =>
    have he := hout h
    subst he
    refine ⟨(List.pairwise_cons.1 hs).2, ?_, fun p => ?_⟩
    · exact .of_eq (List.append_nil _)
    · exact congrArg _ (List.append_nil _)

/-- The values that go in are those that come out and those that stay, in the order of the keys and
among the values of one key in the order in which they went in. -/
theorem run_spec {acts : List (Act α)} (h : run key l acts = some l') (hs : Sorted key l) :
    Sorted key l' ∧ (l ++ puts acts).Perm (outs acts ++ l') ∧
      ∀ p, (l ++ puts acts).filter (key · = p) = (outs acts ++ l').filter (key · = p) := by
  induction acts generalizing l with
  | nil =>
    cases h
    exact ⟨hs, .of_eq (List.append_nil _), fun p => congrArg _ (List.append_nil _)⟩
  | cons x acts ih =>
    obtain ⟨m, hx, hr⟩ := Option.bind_eq_some_iff.1 h
    obtain ⟨hm, hperm, hfil⟩ := Act.apply_spec hx hs
    obtain ⟨hl', hperm', hfil'⟩ := ih hr hm
    have hp : puts (x :: acts) = (x.put?).toList ++ puts acts := by
      unfold puts
      rw [List.filterMap_cons]
      cases x.put? <;> rfl
    have ho : outs (x :: acts) = (x.out?).toList ++ outs acts := by
      unfold outs
      rw [List.filterMap_cons]
      cases x.out? <;> rfl
    rw [hp, ho, ← List.append_assoc, List.append_assoc _ _ l']
    refine ⟨hl', ?_, fun p => ?_⟩
    · refine (hperm.append_right _).trans ?_
      rw [List.append_assoc]
      exact hperm'.append_left _
    · rw [List.filter_append, hfil p, ← List.filter_append, List.append_assoc, List.filter_append,
        hfil' p, ← List.filter_append]

/-- Where all keys are equal the values come out in the order in which they went in. -/
theorem run_fifo {acts : List (Act α)} (h : run key l acts = some l') (hk : ∀ a b, key a = key b) :
    l ++ puts acts = outs acts ++ l' := by
  have hs : Sorted key l := List.pairwise_of_forall fun a b => (hk a b).le
  rcases hl : l ++ puts acts with _ | ⟨a, m⟩
  · have hperm := (run_spec h hs).2.1
    rw [hl] at hperm
    exact hperm.nil_eq
  · have hf := (run_spec h hs).2.2 (key a)
    rwa [List.filter_eq_self.2 fun b _ => decide_eq_true (hk b a),
      List.filter_eq_self.2 fun b _ => decide_eq_true (hk b a), hl] at hf

end

/-- A channel: its capacity, the values that it holds, the senders that wait with their values, and
the receivers that wait. -/
structure Chan (ι α : Type) where
  cap : ℕ∞
  buf : List α
  snd : List (ι × α)
  rcv : List ι

namespace Chan

section
variable {ι α κ : Type} [LinearOrder κ] {key : α → κ} {c c' : Chan ι α}

def room (c : Chan ι α) : Prop := (c.buf.length : ℕ∞) < c.cap

instance (c : Chan ι α) : Decidable c.room := inferInstanceAs (Decidable (_ < _))

/-- The steps of a channel. Its waiters may leave it at any time, and they may change their
places. -/
inductive Step (key : α → κ) (c : Chan ι α) : List (Act α) → Chan ι α → Prop
  | rest (hs : ∀ x ∈ s, x ∈ c.snd) (hr : ∀ x ∈ r, x ∈ c.rcv) :
    Step key c [] { c with snd := s, rcv := r }
  | hand (hr : c.rcv = t :: r) : Step key c [.put a, .get a] { c with rcv := r }
  | put (hr : c.rcv = []) (hb : c.room) : Step key c [.put a] { c with buf := insert key a c.buf }
  | force (hr : c.rcv = []) (hb : ¬c.room) (hl : c.buf = b :: l) :
    Step key c [.drop b, .put a] { c with buf := insert key a l }
  | get (hs : c.snd = []) (hl : c.buf = b :: l) : Step key c [.get b] { c with buf := l }
  | refill (hs : c.snd = (t, a) :: s) (hl : c.buf = b :: l) :
    Step key c [.get b, .put a] { c with buf := insert key a l, snd := s }
  | direct (hs : c.snd = (t, a) :: s) (hl : c.buf = []) :
    Step key c [.put a, .get a] { c with snd := s }
  | send (hr : c.rcv = []) (hb : ¬c.room) (hs : ∀ x ∈ s, x ∈ c.snd ∨ x = (t, a)) :
    Step key c [] { c with snd := s }
  | receive (hs : c.snd = []) (hl : c.buf = []) (hr : ∀ x ∈ r, x ∈ c.rcv ∨ x = t) :
    Step key c [] { c with rcv := r }

/-- No receiver waits where there is a value for it, and no sender where there is room. -/
structure Wf (c : Chan ι α) : Prop where
  le : (c.buf.length : ℕ∞) ≤ c.cap
  rcv : c.rcv ≠ [] → c.buf = [] ∧ c.snd = []
  snd : c.snd ≠ [] → ¬c.room

theorem Wf.step (h : c.Wf) (hs : Step key c acts c') : c'.Wf := by
  have hlen {a b : α} {l : List α} (hl : c.buf = b :: l) :
      (insert key a l).length = c.buf.length := by
    rw [insert_length, hl, List.length_cons]
  cases hs with
  | rest hs hr =>
    refine ⟨h.le, fun hn => ?_, fun hn => h.snd fun he => hn ?_⟩
    · obtain ⟨hb, he⟩ := h.rcv fun he => hn (List.eq_nil_iff_forall_not_mem.2 fun x hx => by
        simpa [he] using hr x hx)
      exact ⟨hb, List.eq_nil_iff_forall_not_mem.2 fun x hx => by simpa [he] using hs x hx⟩
    · exact List.eq_nil_iff_forall_not_mem.2 fun x hx => by simpa [he] using hs x hx
  | hand hr =>
    have hn : c.rcv ≠ [] := hr ▸ List.cons_ne_nil _ _
    exact ⟨h.le, fun _ => h.rcv hn, h.snd⟩
  | put hr hb =>
    refine ⟨?_, fun hn => absurd hr hn, fun hn => absurd hb (h.snd hn)⟩
    rw [insert_length]
    exact Order.add_one_le_of_lt hb
  | force hr hb hl =>
    refine ⟨?_, fun hn => absurd hr hn, fun _ => ?_⟩
    · rw [hlen hl]
      exact h.le
    · unfold room
      rw [hlen hl]
      exact hb
  | get hs hl =>
    refine ⟨le_trans ?_ h.le, fun hn => ?_, fun hn => absurd hs hn⟩
    · rw [hl]
      exact Nat.cast_le.2 (Nat.le_succ _)
    · have hb := (h.rcv hn).1
      rw [hl] at hb
      cases hb
  | refill hs hl =>
    have hb : ¬c.room := h.snd (hs ▸ List.cons_ne_nil _ _)
    refine ⟨?_, fun hn => ?_, fun _ => ?_⟩
    · rw [hlen hl]
      exact h.le
    · have hb := (h.rcv hn).1
      rw [hl] at hb
      cases hb
    · unfold room
      rw [hlen hl]
      exact hb
  | direct hs hl =>
    have hn : c.snd ≠ [] := hs ▸ List.cons_ne_nil _ _
    exact ⟨h.le, fun hr => absurd (h.rcv hr).2 hn, fun _ => h.snd hn⟩
  | send hr hb hs => exact ⟨h.le, fun hn => absurd hr hn, fun _ => hb⟩
  | receive hs hl hr => exact ⟨h.le, fun _ => ⟨hl, hs⟩, fun hn => absurd hs hn⟩

/-- A step is a run of the buffer. -/
theorem Wf.run [DecidableEq α] (h : c.Wf) (hs : Step key c acts c') :
    run key c.buf acts = some c'.buf := by
  have hnil {a : α} (hl : c.buf = []) : Channel.run key c.buf [.put a, .get a] = some c.buf := by
    rw [hl]
    unfold Channel.run
    simp [Act.apply, Channel.insert, Links.insertBy]
  have hhead {b : α} {l : List α} {x : Act α} (hl : c.buf = b :: l) (hx : x.out? = some b) :
      x.apply key c.buf = some l := by
    cases x with
    | put => cases hx
    | get a | drop a =>
      cases hx
      rw [hl]
      exact if_pos rfl
  have htwo {b a : α} {l : List α} {x : Act α} (hl : c.buf = b :: l) (hx : x.out? = some b) :
      Channel.run key c.buf [x, .put a] = some (Channel.insert key a l) := by
    unfold Channel.run
    rw [List.foldlM_cons, hhead hl hx]
    rfl
  cases hs with
  | rest | send | receive => rfl
  | hand hr => exact hnil (h.rcv (hr ▸ List.cons_ne_nil _ _)).1
  | direct hs hl => exact hnil hl
  | put hr hb => rfl
  | get hs hl =>
    unfold Channel.run
    rw [List.foldlM_cons, hhead hl rfl]
    rfl
  | force hr hb hl => exact htwo hl rfl
  | refill hs hl => exact htwo hl rfl

end

end Chan

end Channel
