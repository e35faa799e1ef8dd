import AspKernel.SchedInv
import Mathlib.Data.Finset.Max

/-! The ready queue of many priority levels is searched in a bitmap of two levels. -/

namespace AspKernel
set_option autoImplicit true

/-- What the ready queue asks of its bitmap. -/
structure PrimapOps (P : Type) where
  empty : P → Bool
  search : P → Nat
  set : P → Nat → P
  clear : P → Nat → P

namespace PriLevel

def TBIT_PRIMAP : Nat := 16

/-- `TNUM_PRIMAP2`, of the number of the priority levels. -/
def tnumPrimap2 (tnumTpri : Nat) : Nat := (tnumTpri + TBIT_PRIMAP - 1) / TBIT_PRIMAP

/-- `ready_primap1` and `ready_primap2` -/
structure Primap2 where
  primap1 : BitVec 16
  primap2 : List (BitVec 16)
  deriving DecidableEq, Repr

namespace Primap2

/-- The bitmap after `initialize_task`. -/
def init (tnumTpri : Nat) : Primap2 := ⟨0, List.replicate (tnumPrimap2 tnumTpri) 0⟩

/-- `ready_primap2[i]` -/
def word (m : Primap2) (i : Nat) : BitVec 16 := m.primap2.getD i 0

def empty (m : Primap2) : Bool := m.primap1 == 0

def search (m : Primap2) : Nat :=
  let i := bitmapSearch m.primap1
  i * TBIT_PRIMAP + bitmapSearch (m.word i)

def set (m : Primap2) (pri : Nat) : Primap2 where
  primap2 := m.primap2.set (pri / TBIT_PRIMAP) (m.word (pri / TBIT_PRIMAP) ||| primapBit (pri % TBIT_PRIMAP))
  primap1 := m.primap1 ||| primapBit (pri / TBIT_PRIMAP)

def clear (m : Primap2) (pri : Nat) : Primap2 :=
  let w := m.word (pri / TBIT_PRIMAP) &&& ~~~primapBit (pri % TBIT_PRIMAP)
  let primap2 := m.primap2.set (pri / TBIT_PRIMAP) w
  if w = 0 then ⟨m.primap1 &&& ~~~primapBit (pri / TBIT_PRIMAP), primap2⟩ else ⟨m.primap1, primap2⟩

end Primap2

def twoLevel : PrimapOps Primap2 := ⟨Primap2.empty, Primap2.search, Primap2.set, Primap2.clear⟩

/-- A set of priorities, and its smallest one. -/
def ideal : PrimapOps (Finset Nat) where
  empty s := decide (s = ∅)
  search s := if h : s.Nonempty then s.min' h else 0
  set s pri := insert pri s
  clear s pri := s.erase pri

/-- The kernel with a bitmap of its own. -/
structure State (P : Type) where
  core : Core
  primap : P

section
variable {P : Type} (ops : PrimapOps P)

def State.schedule (s : State P) (p : Option Nat) : State P :=
  { s with core := { s.core with sched := s.core.sched.schedule p } }

/-- `search_schedtsk` -/
def searchSchedtsk (s : State P) : Option Nat := (s.core.sched.ready (ops.search s.primap)).head?

def makeRunnable (s : State P) (t : Nat) : State P × Bool :=
  let pri := s.core.priority t
  let s : State P := ⟨{ s.core with sched := s.core.sched.queueInsertPrev (.ready pri) t }, ops.set s.primap pri⟩
  match s.core.sched.pSchedtsk with
  | none => (s.schedule (some t), s.core.dspflg)
  | some u => if pri < s.core.priority u then (s.schedule (some t), s.core.dspflg) else (s, false)

def makeNonRunnable (s : State P) (t : Nat) : State P × Bool :=
  let pri := s.core.priority t
  let s : State P := { s with core := { s.core with sched := s.core.sched.queueDelete t } }
  if s.core.sched.ready pri = [] then
    let s : State P := { s with primap := ops.clear s.primap pri }
    if s.core.sched.pSchedtsk = some t then
      (s.schedule (if ops.empty s.primap then none else searchSchedtsk ops s), s.core.dspflg)
    else (s, false)
  else if s.core.sched.pSchedtsk = some t then (s.schedule (s.core.sched.ready pri).head?, s.core.dspflg)
  else (s, false)

/-- The ready queues and their bitmap where the priority of a task changes. -/
def requeue (s : State P) (t oldpri newpri : Nat) : State P :=
  let s : State P := { s with core := { s.core with sched := s.core.sched.queueDelete t } }
  let s : State P := if s.core.sched.ready oldpri = [] then { s with primap := ops.clear s.primap oldpri } else s
  ⟨{ s.core with sched := s.core.sched.queueInsertPrev (.ready newpri) t }, ops.set s.primap newpri⟩

/-- `change_priority`; nothing where it looks at the priority of no task. -/
def changePriority (s : State P) (t newpri : Nat) : Option (State P × Bool) :=
  let oldpri := s.core.priority t
  let s : State P := { s with core := s.core.setTcb t { s.core.tcb t with priority := newpri } }
  if (s.core.tcb t).tstat.runnable then
    let s := requeue ops s t oldpri newpri
    if s.core.sched.pSchedtsk = some t then
      if oldpri ≤ newpri then
        let s := s.schedule (searchSchedtsk ops s)
        some (s, s.core.sched.pSchedtsk != some t && s.core.dspflg)
      else some (s, false)
    else
      match s.core.sched.pSchedtsk with
      | none => none
      | some u => if newpri < s.core.priority u then some (s.schedule (some t), s.core.dspflg) else some (s, false)
  else if (s.core.tcb t).tstat.waitWobjcb then some ({ s with core := s.core.wobjChangePriority t }, false)
  else some (s, false)

/-- The calls of the functions, and what the rest of the kernel does between them. -/
inductive Call
  | makeRunnable (t : Nat)
  | makeNonRunnable (t : Nat)
  | changePriority (t newpri : Nat)
  | other (f : Core → Core)

def Call.run (s : State P) : Call → Option (State P × Bool)
  | .makeRunnable t => some (PriLevel.makeRunnable ops s t)
  | .makeNonRunnable t => some (PriLevel.makeNonRunnable ops s t)
  | .changePriority t newpri => PriLevel.changePriority ops s t newpri
  | .other f => some ({ s with core := f s.core }, false)

/-- A run of calls, with what they return. -/
def runCalls (s : State P) : List Call → Option (State P × List Bool)
  | [] => some (s, [])
  | call :: calls => do
    let (s, b) ← call.run ops s
    let (s, bs) ← runCalls s calls
    return (s, b :: bs)

end

/-- The priorities of the tasks are among the levels. -/
def Bounded (tnumTpri : Nat) (c : Core) : Prop := ∀ t, c.priority t < tnumTpri

/-- A call that keeps the priorities among the levels. -/
def Call.Keeps (tnumTpri : Nat) : Call → Prop
  | .makeRunnable _ => True
  | .makeNonRunnable _ => True
  | .changePriority _ newpri => newpri < tnumTpri
  | .other f => ∀ c, Bounded tnumTpri c → Bounded tnumTpri (f c)

/-- One bitmap does what another one does. -/
structure Simulates {P Q : Type} (ops : PrimapOps P) (ops' : PrimapOps Q) (tnumTpri : Nat) (R : P → Q → Prop) :
    Prop where
  empty : R m m' → ops.empty m = ops'.empty m'
  search : R m m' → ops'.empty m' = false → ops.search m = ops'.search m'
  set : R m m' → pri < tnumTpri → R (ops.set m pri) (ops'.set m' pri)
  clear : R m m' → pri < tnumTpri → R (ops.clear m pri) (ops'.clear m' pri)
  set_empty : ops'.empty (ops'.set m' pri) = false

/-- The two levels have the bits of a set of priorities. -/
structure Rep (tnumTpri : Nat) (m : Primap2) (s : Finset Nat) : Prop where
  size : m.primap2.length = tnumPrimap2 tnumTpri
  mem : ∀ pri, pri ∈ s ↔ (m.word (pri / TBIT_PRIMAP)).getLsbD (pri % TBIT_PRIMAP) = true
  bound : ∀ pri ∈ s, pri < tnumTpri
  upper : ∀ i, m.primap1.getLsbD i = true ↔ m.word i ≠ 0

section
variable {tnumTpri : Nat} {m : Primap2} {s : Finset Nat}

theorem rep_init (tnumTpri : Nat) : Rep tnumTpri (.init tnumTpri) ∅ := by
  have hword (i : Nat) : (Primap2.init tnumTpri).word i = 0 := by
    unfold Primap2.word Primap2.init
    rw [List.getD_eq_getElem?_getD, List.getElem?_replicate]
    split
    · rfl
    · rfl
  constructor
  · exact List.length_replicate
  · intro pri
    rw [hword]
    simp
  · intro pri h
    cases h
  · intro i
    rw [hword]
    simp [Primap2.init]

theorem getD_set {l : List (BitVec 16)} (h : k < l.length) (w : BitVec 16) (i : Nat) :
    (l.set k w).getD i 0 = if i = k then w else l.getD i 0 := by
  rw [List.getD_eq_getElem?_getD, List.getElem?_set]
  by_cases hi : i = k
  · subst hi
    rw [if_pos rfl, if_pos h, if_pos rfl]
    rfl
  · rw [if_neg (Ne.symm hi), if_neg hi, List.getD_eq_getElem?_getD]

theorem exists_bit {w : BitVec 16} (h : w ≠ 0) : ∃ j, w.getLsbD j = true := ⟨_, (bitmapSearch_lowest h).1⟩

theorem bit_ne_zero {w : BitVec 16} (h : w.getLsbD j = true) : w ≠ 0 := by
  rintro rfl
  simp at h

theorem place_lt (pri : Nat) : pri % TBIT_PRIMAP < 16 := Nat.mod_lt _ (by decide)

theorem word_lt (hn : tnumTpri ≤ 256) (hpri : pri < tnumTpri) : pri / TBIT_PRIMAP < 16 := by
  unfold TBIT_PRIMAP
  omega

theorem eq_iff_place (h : q / TBIT_PRIMAP = pri / TBIT_PRIMAP) :
    q = pri ↔ q % TBIT_PRIMAP = pri % TBIT_PRIMAP := by
  unfold TBIT_PRIMAP at h ⊢
  omega

namespace Rep
variable (h : Rep tnumTpri m s)
include h

theorem index_lt (hpri : pri < tnumTpri) : pri / TBIT_PRIMAP < m.primap2.length := by
  rw [h.size]
  unfold tnumPrimap2 TBIT_PRIMAP
  omega

/-- A priority that is set has its word and its place in the word. -/
theorem set (hn : tnumTpri ≤ 256) (hpri : pri < tnumTpri) : Rep tnumTpri (m.set pri) (insert pri s) := by
  have hk := word_lt hn hpri
  have hj := place_lt pri
  have hword (i : Nat) : (m.set pri).word i = if i = pri / TBIT_PRIMAP then
      m.word (pri / TBIT_PRIMAP) ||| primapBit (pri % TBIT_PRIMAP) else m.word i :=
    getD_set (h.index_lt hpri) _ i
  constructor
  · exact List.length_set.trans h.size
  · intro q
    rw [Finset.mem_insert, hword, h.mem]
    by_cases hq : q / TBIT_PRIMAP = pri / TBIT_PRIMAP
    · rw [if_pos hq, hq, BitVec.getLsbD_or, primapBit_getLsbD hj, Bool.or_eq_true, decide_eq_true_iff,
        eq_iff_place hq]
      exact or_comm
    · rw [if_neg hq]
      apply or_iff_right
      rintro rfl
      exact hq rfl
  · intro q hq
    rcases Finset.mem_insert.1 hq with rfl | hq
    · exact hpri
    · exact h.bound q hq
  · intro i
    change (m.primap1 ||| primapBit (pri / TBIT_PRIMAP)).getLsbD i = true ↔ _
    rw [hword, BitVec.getLsbD_or, primapBit_getLsbD hk, Bool.or_eq_true, decide_eq_true_iff]
    by_cases hi : i = pri / TBIT_PRIMAP
    · rw [if_pos hi]
      apply iff_of_true (.inr hi)
      apply bit_ne_zero (j := pri % TBIT_PRIMAP)
      rw [BitVec.getLsbD_or, primapBit_getLsbD hj, decide_eq_true rfl, Bool.or_true]
    · rw [if_neg hi, h.upper]
      exact or_iff_left hi

/-- The bit of the first level goes with the last bit of its word. -/
theorem clear (hn : tnumTpri ≤ 256) (hpri : pri < tnumTpri) : Rep tnumTpri (m.clear pri) (s.erase pri) := by
  have hk := word_lt hn hpri
  have hj := place_lt pri
  have hprimap2 : (m.clear pri).primap2 = m.primap2.set (pri / TBIT_PRIMAP)
      (m.word (pri / TBIT_PRIMAP) &&& ~~~primapBit (pri % TBIT_PRIMAP)) := by
    unfold Primap2.clear
    dsimp only
    split
    · rfl
    · rfl
  have hword (i : Nat) : (m.clear pri).word i = if i = pri / TBIT_PRIMAP then
      m.word (pri / TBIT_PRIMAP) &&& ~~~primapBit (pri % TBIT_PRIMAP) else m.word i := by
    unfold Primap2.word
    rw [hprimap2]
    exact getD_set (h.index_lt hpri) _ i
  constructor
  · rw [hprimap2]
    exact List.length_set.trans h.size
  · intro q
    rw [Finset.mem_erase, hword, h.mem]
    by_cases hq : q / TBIT_PRIMAP = pri / TBIT_PRIMAP
    · rw [if_pos hq, hq, BitVec.getLsbD_and, BitVec.getLsbD_not, primapBit_getLsbD hj,
        decide_eq_true (place_lt q), Bool.true_and, Bool.and_eq_true, Bool.not_eq_true',
        decide_eq_false_iff_not, ne_eq, eq_iff_place hq]
      exact and_comm
    · rw [if_neg hq]
      apply and_iff_right
      rintro rfl
      exact hq rfl
  · intro q hq
    exact h.bound q (Finset.mem_of_mem_erase hq)
  · intro i
    rw [hword]
    unfold Primap2.clear
    dsimp only
    by_cases hw : m.word (pri / TBIT_PRIMAP) &&& ~~~primapBit (pri % TBIT_PRIMAP) = 0
    · rw [if_pos hw]
      dsimp only
      rw [BitVec.getLsbD_and, BitVec.getLsbD_not, primapBit_getLsbD hk]
      by_cases hi : i = pri / TBIT_PRIMAP
      · rw [if_pos hi, hw, decide_eq_true hi]
        simp
      · rw [if_neg hi, decide_eq_false hi, ← h.upper]
        by_cases hlt : i < 16
        · simp [hlt]
        · simp [BitVec.getLsbD_of_ge m.primap1 i (Nat.le_of_not_lt hlt)]
    · rw [if_neg hw]
      dsimp only
      rw [h.upper]
      by_cases hi : i = pri / TBIT_PRIMAP
      · rw [if_pos hi, hi]
        apply iff_of_true _ hw
        intro hz
        rw [hz] at hw
        exact hw (BitVec.zero_and)
      · rw [if_neg hi]

theorem mem_of_bit (hj : (m.word i).getLsbD j = true) : i * TBIT_PRIMAP + j ∈ s := by
  have hlt : j < 16 := BitVec.lt_of_getLsbD hj
  have hdiv : (i * TBIT_PRIMAP + j) / TBIT_PRIMAP = i := by
    unfold TBIT_PRIMAP
    omega
  have hmod : (i * TBIT_PRIMAP + j) % TBIT_PRIMAP = j := by
    unfold TBIT_PRIMAP
    omega
  rw [h.mem, hdiv, hmod]
  exact hj

theorem word_ne_zero (hpri : pri ∈ s) : m.word (pri / TBIT_PRIMAP) ≠ 0 := bit_ne_zero ((h.mem pri).1 hpri)

theorem primap1_eq_zero : m.primap1 = 0 ↔ s = ∅ := by
  constructor
  · intro hz
    apply Finset.eq_empty_of_forall_notMem
    intro pri hpri
    have hbit := (h.upper _).2 (h.word_ne_zero hpri)
    rw [hz] at hbit
    simp at hbit
  · rintro rfl
    by_contra hne
    obtain ⟨i, hi⟩ := exists_bit hne
    obtain ⟨j, hj⟩ := exists_bit ((h.upper i).1 hi)
    cases h.mem_of_bit hj

/-- `primap_search` looks at a word that is there. -/
theorem search_index (hs : s.Nonempty) : bitmapSearch m.primap1 < m.primap2.length := by
  have hne : m.primap1 ≠ 0 := fun hz => hs.ne_empty (h.primap1_eq_zero.1 hz)
  have hword := (h.upper _).1 (bitmapSearch_lowest hne).1
  by_contra hlt
  apply hword
  unfold Primap2.word
  rw [List.getD_eq_getElem?_getD, List.getElem?_eq_none (Nat.le_of_not_lt hlt)]
  rfl

/-- The first word that is not zero, and its first bit. -/
theorem search_eq (hs : s.Nonempty) : m.search = s.min' hs := by
  have hne : m.primap1 ≠ 0 := fun hz => hs.ne_empty (h.primap1_eq_zero.1 hz)
  obtain ⟨hi, hilow⟩ := bitmapSearch_lowest hne
  obtain ⟨hj, hjlow⟩ := bitmapSearch_lowest ((h.upper _).1 hi)
  apply le_antisymm
  · apply Finset.le_min'
    intro p hp
    have hbit := (h.mem p).1 hp
    have hle : bitmapSearch m.primap1 ≤ p / TBIT_PRIMAP := by
      by_contra hlt
      have hup := (h.upper _).2 (h.word_ne_zero hp)
      rw [hilow _ (Nat.lt_of_not_le hlt)] at hup
      cases hup
    unfold Primap2.search
    dsimp only
    rcases Nat.lt_or_eq_of_le hle with hlt | heq
    · have hword : bitmapSearch (m.word (bitmapSearch m.primap1)) < 16 := BitVec.lt_of_getLsbD hj
      unfold TBIT_PRIMAP at hlt ⊢
      omega
    · have hlow : bitmapSearch (m.word (bitmapSearch m.primap1)) ≤ p % TBIT_PRIMAP := by
        by_contra hlt
        rw [← heq, hjlow _ (Nat.lt_of_not_le hlt)] at hbit
        cases hbit
      unfold TBIT_PRIMAP at heq hlow ⊢
      omega
  · exact Finset.min'_le s _ (h.mem_of_bit hj)

end Rep

end

theorem twoLevel_ideal (hn : tnumTpri ≤ 256) : Simulates twoLevel ideal tnumTpri (Rep tnumTpri) where
  empty {m s} h := by
    change (m.primap1 == 0) = decide (s = ∅)
    rw [Bool.eq_iff_iff, beq_iff_eq, decide_eq_true_iff]
    exact h.primap1_eq_zero
  search {m s} h hs := by
    have hne : s.Nonempty := Finset.nonempty_iff_ne_empty.2 (of_decide_eq_false hs)
    exact (h.search_eq hne).trans (dif_pos hne).symm
  set h hpri := h.set hn hpri
  clear h hpri := h.clear hn hpri
  set_empty {s pri} := decide_eq_false (Finset.insert_ne_empty pri s)

section
variable {P Q : Type} {ops : PrimapOps P} {ops' : PrimapOps Q} {tnumTpri : Nat} {R : P → Q → Prop}

/-- A call has the same result: the kernels are the same, and the bitmaps are related. -/
structure Same (R : P → Q → Prop) (r : State P × Bool) (r' : State Q × Bool) : Prop where
  core : r.1.core = r'.1.core
  primap : R r.1.primap r'.1.primap
  flag : r.2 = r'.2

namespace Simulates
variable (h : Simulates ops ops' tnumTpri R) {c : Core} {m : P} {m' : Q} (hm : R m m')
include h hm

theorem searchSchedtsk (hne : ops'.empty m' = false) :
    searchSchedtsk ops ⟨c, m⟩ = searchSchedtsk ops' ⟨c, m'⟩ := by
  unfold PriLevel.searchSchedtsk
  rw [h.search hm hne]

theorem makeRunnable (hb : Bounded tnumTpri c) (t : Nat) :
    Same R (makeRunnable ops ⟨c, m⟩ t) (makeRunnable ops' ⟨c, m'⟩ t) := by
  have hset := h.set hm (hb t)
  unfold PriLevel.makeRunnable
  dsimp only
  split
  · exact ⟨rfl, hset, rfl⟩
  · split
    · exact ⟨rfl, hset, rfl⟩
    · exact ⟨rfl, hset, rfl⟩

theorem makeNonRunnable (hb : Bounded tnumTpri c) (t : Nat) :
    Same R (makeNonRunnable ops ⟨c, m⟩ t) (makeNonRunnable ops' ⟨c, m'⟩ t) := by
  have hclear := h.clear hm (hb t)
  unfold PriLevel.makeNonRunnable
  dsimp only
  split
  · split
    · cases hempty : ops'.empty (ops'.clear m' (c.priority t)) with
      | true =>
        rw [h.empty hclear, hempty]
        exact ⟨rfl, hclear, rfl⟩
      | false =>
        rw [h.empty hclear, hempty, h.searchSchedtsk hclear hempty]
        exact ⟨rfl, hclear, rfl⟩
    · exact ⟨rfl, hclear, rfl⟩
  · split
    · exact ⟨rfl, hm, rfl⟩
    · exact ⟨rfl, hm, rfl⟩

/-- A priority is cleared where no task has it any more, and the new one is set. -/
theorem requeue (hold : oldpri < tnumTpri) (hnew : newpri < tnumTpri) (t : Nat) : ∃ c' m₁ m₁',
    requeue ops ⟨c, m⟩ t oldpri newpri = ⟨c', m₁⟩ ∧ requeue ops' ⟨c, m'⟩ t oldpri newpri = ⟨c', m₁'⟩ ∧
      R m₁ m₁' ∧ ops'.empty m₁' = false ∧ c'.tcb = c.tcb := by
  unfold PriLevel.requeue
  dsimp only
  split
  · exact ⟨_, _, _, rfl, rfl, h.set (h.clear hm hold) hnew, h.set_empty, rfl⟩
  · exact ⟨_, _, _, rfl, rfl, h.set hm hnew, h.set_empty, rfl⟩

theorem changePriority (hb : Bounded tnumTpri c) (hnew : newpri < tnumTpri) (t : Nat) :
    Option.Rel (Same R) (changePriority ops ⟨c, m⟩ t newpri) (changePriority ops' ⟨c, m'⟩ t newpri) := by
  unfold PriLevel.changePriority
  dsimp only
  split
  · obtain ⟨c', m₁, m₁', hreq, hreq', hm₁, hne, -⟩ := h.requeue hm
      (c := c.setTcb t { c.tcb t with priority := newpri }) (hb t) hnew t
    rw [hreq, hreq']
    dsimp only
    split
    · split
      · rw [h.searchSchedtsk hm₁ hne]
        exact .some ⟨rfl, hm₁, rfl⟩
      · exact .some ⟨rfl, hm₁, rfl⟩
    · split
      · exact .none
      · split
        · exact .some ⟨rfl, hm₁, rfl⟩
        · exact .some ⟨rfl, hm₁, rfl⟩
  · split
    · exact .some ⟨rfl, hm, rfl⟩
    · exact .some ⟨rfl, hm, rfl⟩

omit hm in
theorem call (hm : R m m') (hb : Bounded tnumTpri c) {call : Call} (hk : call.Keeps tnumTpri) :
    Option.Rel (Same R) (call.run ops ⟨c, m⟩) (call.run ops' ⟨c, m'⟩) := by
  cases call with
  | makeRunnable t => exact .some (h.makeRunnable hm hb t)
  | makeNonRunnable t => exact .some (h.makeNonRunnable hm hb t)
  | changePriority t newpri => exact h.changePriority hm hb hk t
  | other f => exact .some ⟨rfl, hm, rfl⟩

end Simulates

end

section
variable {P : Type} {ops : PrimapOps P} {tnumTpri : Nat} {s : State P}

theorem makeRunnable_tcb (t : Nat) : (makeRunnable ops s t).1.core.tcb = s.core.tcb := by
  unfold makeRunnable
  dsimp only
  split
  · rfl
  · split
    · rfl
    · rfl

theorem makeNonRunnable_tcb (t : Nat) : (makeNonRunnable ops s t).1.core.tcb = s.core.tcb := by
  unfold makeNonRunnable
  dsimp only
  split
  · split
    · rfl
    · rfl
  · split
    · rfl
    · rfl

theorem requeue_tcb (t oldpri newpri : Nat) : (requeue ops s t oldpri newpri).core.tcb = s.core.tcb := by
  unfold requeue
  dsimp only
  split
  · rfl
  · rfl

theorem wobjChangePriority_tcb (c : Core) (t : Nat) : (c.wobjChangePriority t).tcb = c.tcb := by
  unfold Core.wobjChangePriority
  split
  · rfl
  · rfl

theorem changePriority_tcb (h : changePriority ops s t newpri = some r) :
    r.1.core.tcb = Function.update s.core.tcb t { s.core.tcb t with priority := newpri } := by
  unfold changePriority at h
  dsimp only at h
  split at h
  · split at h
    · split at h
      · rw [← Option.some.inj h]
        exact requeue_tcb t (s.core.priority t) newpri
      · rw [← Option.some.inj h]
        exact requeue_tcb t (s.core.priority t) newpri
    · split at h
      · cases h
      · split at h
        · rw [← Option.some.inj h]
          exact requeue_tcb t (s.core.priority t) newpri
        · rw [← Option.some.inj h]
          exact requeue_tcb t (s.core.priority t) newpri
  · split at h
    · rw [← Option.some.inj h]
      exact wobjChangePriority_tcb _ t
    · rw [← Option.some.inj h]
      rfl

theorem Bounded.congr {c c' : Core} (hb : Bounded tnumTpri c) (h : c'.tcb = c.tcb) : Bounded tnumTpri c' := by
  intro t
  unfold Core.priority
  rw [h]
  exact hb t

theorem Call.run_bounded (hb : Bounded tnumTpri s.core) {call : Call} (hk : call.Keeps tnumTpri)
    (h : call.run ops s = some r) : Bounded tnumTpri r.1.core := by
  cases call with
  | makeRunnable t =>
    rw [← Option.some.inj h]
    exact hb.congr (makeRunnable_tcb t)
  | makeNonRunnable t =>
    rw [← Option.some.inj h]
    exact hb.congr (makeNonRunnable_tcb t)
  | changePriority t newpri =>
    intro u
    unfold Core.priority
    rw [changePriority_tcb h]
    by_cases hu : u = t
    · rw [hu, Function.update_self]
      exact hk
    · rw [Function.update_of_ne hu]
      exact hb u
  | other f =>
    rw [← Option.some.inj h]
    exact hk s.core hb

end

/-- What a run leaves beside the bitmap, and what its calls return. -/
def outcome {P : Type} (ops : PrimapOps P) (s : State P) (calls : List Call) : Option (Core × List Bool) :=
  (runCalls ops s calls).map fun r => (r.1.core, r.2)

theorem outcome_cons {P : Type} {ops : PrimapOps P} {s : State P} (call : Call) (calls : List Call) :
    outcome ops s (call :: calls) =
      (call.run ops s).bind fun r => (outcome ops r.1 calls).map fun o => (o.1, r.2 :: o.2) := by
  unfold outcome
  conv => lhs; unfold runCalls
  cases call.run ops s with
  | none => rfl
  | some r =>
    simp only [Option.bind_eq_bind, Option.bind_some]
    cases runCalls ops r.1 calls with
    | none => rfl
    | some r' => rfl

/-- Runs with bitmaps that do the same leave the same and return the same. -/
theorem Simulates.outcome_eq {P Q : Type} {ops : PrimapOps P} {ops' : PrimapOps Q} {R : P → Q → Prop}
    (h : Simulates ops ops' tnumTpri R) {c : Core} {m : P} {m' : Q} (hm : R m m') (hb : Bounded tnumTpri c)
    {calls : List Call} (hk : ∀ call ∈ calls, call.Keeps tnumTpri) :
    outcome ops ⟨c, m⟩ calls = outcome ops' ⟨c, m'⟩ calls := by
  induction calls generalizing c m m' with
  | nil => rfl
  | cons call calls ih =>
    obtain ⟨hcall, hk⟩ := List.forall_mem_cons.1 hk
    have hrel := h.call hm hb hcall
    rw [outcome_cons, outcome_cons]
    cases hr' : call.run ops' ⟨c, m'⟩ with
    | none =>
      rw [hr'] at hrel
      cases hr : call.run ops ⟨c, m⟩ with
      | none => rfl
      | some r =>
        rw [hr] at hrel
        cases hrel
    | some r' =>
      have hbound := Call.run_bounded hb hcall hr'
      rw [hr'] at hrel
      cases hr : call.run ops ⟨c, m⟩ with
      | none =>
        rw [hr] at hrel
        cases hrel
      | some r =>
        rw [hr] at hrel
        obtain ⟨⟨c₁, m₁⟩, b⟩ := r
        obtain ⟨⟨c₁', m₁'⟩, b'⟩ := r'
        cases hrel with
        | some hsame =>
          obtain ⟨hcore, hm₁, hflag⟩ := hsame
          dsimp only at hcore hm₁ hflag hbound
          subst hcore hflag
          rw [Option.bind_some, Option.bind_some]
          dsimp only
          rw [ih hm₁ hbound hk]

/-- A call of `primap_set` or of `primap_clear` -/
inductive PrimapCall
  | set (pri : Nat)
  | clear (pri : Nat)
  deriving DecidableEq, Repr

def PrimapCall.pri : PrimapCall → Nat
  | .set pri => pri
  | .clear pri => pri

def PrimapCall.run {P : Type} (ops : PrimapOps P) (m : P) : PrimapCall → P
  | .set pri => ops.set m pri
  | .clear pri => ops.clear m pri

/-- The bitmap after calls, and the priorities that are set and have not been cleared again. -/
def primapAfter (tnumTpri : Nat) (calls : List PrimapCall) : Primap2 :=
  calls.foldl (PrimapCall.run twoLevel) (.init tnumTpri)

def setAfter (calls : List PrimapCall) : Finset Nat := calls.foldl (PrimapCall.run ideal) ∅

theorem Simulates.foldl {P Q : Type} {ops : PrimapOps P} {ops' : PrimapOps Q} {R : P → Q → Prop}
    (h : Simulates ops ops' tnumTpri R) {m : P} {m' : Q} (hm : R m m') {calls : List PrimapCall}
    (hk : ∀ call ∈ calls, call.pri < tnumTpri) :
    R (calls.foldl (PrimapCall.run ops) m) (calls.foldl (PrimapCall.run ops') m') := by
  induction calls generalizing m m' with
  | nil => exact hm
  | cons call calls ih =>
    obtain ⟨hcall, hk⟩ := List.forall_mem_cons.1 hk
    apply ih _ hk
    cases call with
    | set pri => exact h.set hm hcall
    | clear pri => exact h.clear hm hcall

/-- The bitmap of two levels is the set of the priorities that have been set and not cleared, and the functions of the
ready queue do with it what they would do with the set. -/
theorem primap_two_levels (hn : tnumTpri ≤ 256) :
    (∀ calls : List PrimapCall, (∀ call ∈ calls, call.pri < tnumTpri) →
      (∀ i < tnumPrimap2 tnumTpri, (primapAfter tnumTpri calls).primap1.getLsbD i = true ↔
        (primapAfter tnumTpri calls).word i ≠ 0) ∧
      ((primapAfter tnumTpri calls).empty = true ↔ setAfter calls = ∅) ∧
      ∀ hs : (setAfter calls).Nonempty, (primapAfter tnumTpri calls).search = (setAfter calls).min' hs) ∧
    ∀ (c : Core) (calls : List Call), Bounded tnumTpri c → (∀ call ∈ calls, call.Keeps tnumTpri) →
      outcome twoLevel ⟨c, .init tnumTpri⟩ calls = outcome ideal ⟨c, ∅⟩ calls := by
  have hsim := twoLevel_ideal hn
  constructor
  · intro calls hk
    have hrep : Rep tnumTpri (primapAfter tnumTpri calls) (setAfter calls) := hsim.foldl (rep_init tnumTpri) hk
    refine ⟨fun i _ => hrep.upper i, ?_, hrep.search_eq⟩
    rw [← hrep.primap1_eq_zero]
    exact beq_iff_eq
  · intro c calls hb hk
    exact hsim.outcome_eq (rep_init tnumTpri) hb hk

/-- The last of seventeen levels is found in the second word. -/
theorem primap_two_levels_seventeen :
    (primapAfter 17 [.set 16, .set 3, .clear 3]).search = 16 ∧
      (primapAfter 17 [.set 16, .set 3, .clear 3]).primap1 = 2 := by
  have hset : setAfter [.set 16, .set 3, .clear 3] = {16} := by decide
  obtain ⟨-, -, hsearch⟩ := (primap_two_levels (show 17 ≤ 256 by decide)).1 [.set 16, .set 3, .clear 3] (by decide)
  refine ⟨?_, by decide⟩
  rw [hsearch (by rw [hset]; exact Finset.singleton_nonempty 16)]
  simp only [hset, Finset.min'_singleton]

end PriLevel

end AspKernel
