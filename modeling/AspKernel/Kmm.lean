import AspKernel.MallocInv
import AspKernel.TlsfRun

/-! The kernel with the pool of memory that it allocates from. -/

namespace AspKernel
set_option autoImplicit true
open WordMem (Mem)
open Tlsf (Client PoolInv Place Req poolEnd words)

/-- A call of `kernel_malloc`, which returns `mem`. -/
def malloced (size : BitVec 32) (mem : Addr) : Req × Nat := (.malloc size.toNat, mem.toNat)

/-- A call of `kernel_free`. -/
def freed (ptr : Addr) : Req × Nat := (.free ptr.toNat, Tlsf.NULL)

/-- What is asked of the pool for the areas of a new object. -/
def Call.mallocs (cfg : Cfg) : Call → List (Req × Nat)
  | .acreTsk pk mem => if pk.stk = 0 then [malloced (cfg.target.roundStk pk.stksz) mem] else []
  | .acreDtq pk mem =>
    if pk.dtqcnt ≠ 0 ∧ pk.pDtqmb = 0 then [malloced (sizeofDTQMB * BitVec.ofNat 32 pk.dtqcnt) mem] else []
  | .acrePdq pk mem =>
    if pk.pdqcnt ≠ 0 ∧ pk.pPdqmb = 0 then [malloced (sizeofPDQMB * BitVec.ofNat 32 pk.pdqcnt) mem] else []
  | .acreMpf pk memMpf memMb =>
    let mpfSize := BitVec.ofNat 32 (cfg.target.roundMpf pk.blksz) * BitVec.ofNat 32 pk.blkcnt
    let mbSize := sizeofMPFMB * BitVec.ofNat 32 pk.blkcnt
    (if pk.mpf = 0 then [malloced mpfSize memMpf] else []) ++
      if (if pk.mpf = 0 then memMpf else pk.mpf) = 0 then []
      else if pk.pMpfmb = 0 then
        malloced mbSize memMb :: if memMb = 0 ∧ pk.mpf = 0 then [freed memMpf] else []
      else []
  | _ => []

/-- What a call asks of the pool. -/
def Call.asks (cfg : Cfg) (k : Kernel) (call : Call) : List (Req × Nat) :=
  match call.acre, call.del with
  | some x, _ =>
    if (∀ p ∈ call.checks cfg k.core, p.1 = true) ∧ k.core.freeList x ≠ [] then call.mallocs cfg else []
  | none, some (x, id) =>
    if (exec cfg k call).ercd = some E_OK then (k.owned x (index id)).map freed else []
  | none, none => []

section
variable {cfg : Cfg} {k : Kernel} {call : Call} {x : ObjKind}

theorem check_body {σ : Type} {l : List (Bool × ER)} {st : σ} {body : Res σ} {f : σ → Kernel} {e : ER}
    (hl : ∀ p ∈ l, p.1 = true) (h : ((check l st body).map f).ercd = some e) : body.ercd = some e := by
  rcases check_cases l st body with ⟨p, hp, hf, -⟩ | ⟨-, he⟩
  · rw [hl p hp] at hf
    cases hf
  · rwa [he] at h

theorem created_ne_nomem (i : Nat) (h : some (toId i) = some E_NOMEM) : False := by
  have hpos := toId_pos i
  rw [Option.some.inj h] at hpos
  exact absurd hpos (by decide)

theorem noid_ne_nomem (h : some E_NOID = some E_NOMEM) : False := absurd (Option.some.inj h) (by decide)

theorem of_got {b : Prop} [Decidable b] {a : Area} (hne : (if b then [a] else []) ≠ [])
    (h : ∀ a' ∈ if b then [a] else [], a'.addr ≠ 0) : b ∧ a.addr ≠ 0 := by
  by_cases hb : b
  · rw [if_pos hb] at h
    exact ⟨hb, h a (List.mem_singleton_self a)⟩
  · exact absurd (if_neg hb) hne

theorem ne_zero_of_got {p mem : Addr} {size : BitVec 32}
    (h : ∀ a ∈ if p = 0 then [(⟨mem, size⟩ : Area)] else [], a.addr ≠ 0) : (if p = 0 then mem else p) ≠ 0 := by
  by_cases hp : p = 0
  · rw [if_pos hp] at h ⊢
    exact h _ (List.mem_singleton_self _)
  · rwa [if_neg hp]

/-- A creation that finds no memory has got none. -/
theorem exec_nomem (hr : ∀ x, ∀ i ∈ k.core.freeList x, i < (cfg.num x).tmax)
    (hl : ∀ p ∈ call.checks cfg k.core, p.1 = true) (hc : call.acre = some x)
    (he : (exec cfg k call).ercd = some E_NOMEM) : call.got cfg = [] ∨ ∃ a ∈ call.got cfg, a.addr = 0 := by
  by_contra hno
  obtain ⟨hne, hall⟩ := not_or.1 hno
  have hgot : ∀ a ∈ call.got cfg, a.addr ≠ 0 := fun a ha h0 => hall ⟨a, ha, h0⟩
  cases call with
  | acreTsk pk mem =>
    obtain ⟨hb, hm⟩ := of_got hne hgot
    change (k.onCore (·.acreTsk cfg pk mem)).ercd = _ at he
    have h := check_body hl he
    rcases takeTcb_cases k.core with ⟨ht, -⟩ | ⟨t, l, -, ht⟩
    · rw [ht] at h
      exact noid_ne_nomem h
    · rw [ht] at h
      simp only [if_pos hb, if_neg hm] at h
      exact created_ne_nomem t h
  | acreDtq pk mem =>
    obtain ⟨hb, hm⟩ := of_got hne hgot
    change (k.onDtq (acreDtq cfg · pk mem)).ercd = _ at he
    have h := check_body hl he
    simp only at h
    rcases takeWobj_cases (n := cfg.dtq) (hr (.wobj .SDTQ)) with ⟨ht, -⟩ | ⟨i, l, -, ht⟩
    · rw [ht] at h
      exact noid_ne_nomem h
    · rw [ht] at h
      simp only [if_pos hb, if_neg fun hand : pk.dtqcnt ≠ 0 ∧ mem = 0 => hm hand.2] at h
      exact created_ne_nomem i h
  | acrePdq pk mem =>
    obtain ⟨hb, hm⟩ := of_got hne hgot
    change (k.onPdq (acrePdq cfg · pk mem)).ercd = _ at he
    have h := check_body hl he
    simp only at h
    rcases takeWobj_cases (n := cfg.pdq) (hr (.wobj .SPDQ)) with ⟨ht, -⟩ | ⟨i, l, -, ht⟩
    · rw [ht] at h
      exact noid_ne_nomem h
    · rw [ht] at h
      simp only [if_pos hb, if_neg fun hand : pk.pdqcnt ≠ 0 ∧ mem = 0 => hm hand.2] at h
      exact created_ne_nomem i h
  | acreMpf pk memMpf memMb =>
    have hmpf := ne_zero_of_got fun a ha => hgot a (List.mem_append_right _ ha)
    have hmb := ne_zero_of_got fun a ha => hgot a (List.mem_append_left _ ha)
    change (k.onMpf (acreMpf cfg · pk memMpf memMb)).ercd = _ at he
    have h := check_body hl he
    simp only at h
    rcases takeWobj_cases (n := cfg.mpf) (hr (.wobj .MPF)) with ⟨ht, -⟩ | ⟨i, l, -, ht⟩
    · rw [ht] at h
      exact noid_ne_nomem h
    · rw [ht] at h
      simp only [if_neg hmpf, if_neg hmb] at h
      exact created_ne_nomem i h
  | acreSem | acreFlg | acreMbx | acreMtx | acreCyc | acreAlm => exact hne rfl
  | _ => cases hc

theorem Reachable.free_lt (h : Reachable cfg k) (x : ObjKind) : ∀ i ∈ k.core.freeList x, i < (cfg.num x).tmax :=
  fun i hi => (h.range x i hi).2

/-- What happens after a call does not touch the areas. -/
theorem areas_step {k' : Kernel} (hs : Step cfg k (.call call) k') :
    k'.core.areas = (exec cfg k call).st.core.areas := by
  obtain ⟨-, hk⟩ := step_call hs
  rw [hk]
  exact congrArg Prod.fst (settle_alike (exec cfg k call)).memory

/-- The areas after a creation. -/
theorem Reachable.created_areas {k' : Kernel} {id : ID} (h : Reachable cfg k) (hs : Step cfg k (.call call) k')
    (hc : call.acre = some x) (hid : (exec cfg k call).ercd = some id) (hpos : 0 < id) :
    k'.core.areas = call.got cfg ++ k.core.areas := by
  have hmem := areas_step hs
  generalize hr : exec cfg k call = r at hmem hid
  cases hr ▸ exec_acre k h.free_lt hc with
  | check hp hf =>
    have hneg := (ne_noid_of_code (checks_code _ call _ hp)).2
    rw [Option.some.inj hid] at hneg
    exact absurd hpos (Int.not_lt.2 (Int.le_of_lt hneg))
  | noid hl hf => exact absurd (Option.some.inj hid ▸ hpos) (by decide)
  | nomem hl hf => exact absurd (Option.some.inj hid ▸ hpos) (by decide)
  | created hl hf ha hA hgot hm hw => exact hmem.trans (congrArg Prod.fst hgot)

theorem asks_acre (hc : call.acre = some x) : call.asks cfg k =
    if (∀ p ∈ call.checks cfg k.core, p.1 = true) ∧ k.core.freeList x ≠ [] then call.mallocs cfg else [] := by
  unfold Call.asks
  rw [hc]

theorem one_malloced {b : Prop} [Decidable b] {a a' : Area} (hg : (if b then [a'] else []) = [a]) :
    (if b then [malloced a'.size a'.addr] else []) = [malloced a.size a.addr] := by
  by_cases hb : b
  · rw [if_pos hb] at hg ⊢
    rw [List.singleton_inj.1 hg]
  · rw [if_neg hb] at hg
    cases hg

theorem got_of_not_acre (h : call.acre = none) : call.got cfg = [] := by
  cases call <;> first
    | rfl
    | cases h

end

namespace Kmm

/-- What happens: an event of the kernel, or a write to a word of an area. -/
inductive Event
  | kernel (e : AspKernel.Event)
  | write (ptr i v : Nat)

def Event.asks (cfg : Cfg) (k : Kernel) : Event → List (Req × Nat)
  | .kernel (.call call) => call.asks cfg k
  | .kernel _ => []
  | .write ptr i v => [(.write ptr i v, Tlsf.NULL)]

/-- What the pool relies on that is not up to the kernel: the sizes, and where the areas are written to. -/
def Proper (os : List Tlsf.Obj) : Req → Prop
  | .malloc size => size ≤ Tlsf.MAX_REQUEST
  | .write ptr i _ => ∃ o ∈ os, o.ptr = ptr ∧ i < o.data.length
  | _ => True

instance (os : List Tlsf.Obj) : (r : Req) → Decidable (Proper os r)
  | .malloc size => inferInstanceAs (Decidable (size ≤ Tlsf.MAX_REQUEST))
  | .write ptr i _ => inferInstanceAs (Decidable (∃ o ∈ os, o.ptr = ptr ∧ i < o.data.length))
  | .calloc .. => isTrue trivial
  | .realloc .. => isTrue trivial
  | .free _ => isTrue trivial

/-- An answer of the pool. -/
structure Turn (P : Nat) (c : Client) (e : Req × Nat) (c' : Client) : Prop where
  proper : Proper c.objs e.1
  answer : Tlsf.serve P c.mem e.1 = (c'.mem, e.2)
  view : c'.objs = Tlsf.view c'.mem e.2 c.objs e.1

/-- The answers of the pool to the requests of one event. -/
def Answers (P : Nat) : Client → List (Req × Nat) → Client → Prop
  | c, [], c' => c' = c
  | c, e :: es, c' => ∃ c₁, Turn P c e c₁ ∧ Answers P c₁ es c'

structure State where
  kernel : Kernel
  pool : Client

def Event.Moves (cfg : Cfg) (k : Kernel) : Event → Kernel → Prop
  | .kernel e, k' => AspKernel.Step cfg k e k'
  | .write .., k' => k' = k

structure Step (cfg : Cfg) (P : Nat) (s : State) (e : Event) (s' : State) : Prop where
  kernel : e.Moves cfg s.kernel s'.kernel
  pool : Answers P s.pool (e.asks cfg s.kernel) s'.pool

/-- The answers of the pool as they are computed. -/
def answers (P : Nat) : Client → List (Req × Nat) → Option Client
  | c, [] => some c
  | c, e :: es =>
    let a := Tlsf.serve P c.mem e.1
    if Proper c.objs e.1 ∧ a.2 = e.2 then answers P ⟨a.1, Tlsf.view a.1 a.2 c.objs e.1⟩ es else none

def State.step (cfg : Cfg) (P : Nat) (s : State) (e : Event) : Option State :=
  match e with
  | .kernel e' => do
    let k ← s.kernel.step cfg e'
    let c ← answers P s.pool (e.asks cfg s.kernel)
    some ⟨k, c⟩
  | .write .. => (answers P s.pool (e.asks cfg s.kernel)).map (⟨s.kernel, ·⟩)

/-- The event as the kernel sees it. -/
def Event.seen : Event → Option AspKernel.Event
  | .kernel e => some e
  | .write .. => none

def State.init (cfg : Cfg) (m : Mem) (P S : Nat) : State := ⟨boot cfg, .init m P S⟩

/-- Where an area lies, with its words. -/
def place (a : Area) : Nat × Nat := (a.addr.toNat, words a.size.toNat)

def held (o : Tlsf.Obj) : Nat × Nat := (o.ptr, o.data.length)

section
variable {cfg : Cfg} {m : Mem} {P S : Nat} {c c' : Client} {r : Req × Nat} {es : List (Req × Nat)} {call : Call}
  {x : ObjKind} {k k' : Kernel} {size : BitVec 32} {mem ptr : Addr} {os : List Tlsf.Obj} {as : List Area}

theorem toNat_null : mem.toNat = Tlsf.NULL ↔ mem = 0 := BitVec.toNat_inj (y := 0)

theorem pool_nodup (h : PoolInv m P S c) : (c.objs.map Tlsf.Obj.ptr).Nodup := by
  obtain ⟨_, _, hs⟩ := h.serves
  exact hs.owners.nodup

theorem Turn.step (h : Turn P c r c') (hl : r.1.Legal c.objs) : c.Step P r c' := ⟨hl, h.answer, h.view⟩

theorem turn_malloced (h : Turn P c (malloced size mem) c') : c.Step P (malloced size mem) c' ∧
    c'.objs.map held = (if mem = 0 then [] else [place ⟨mem, size⟩]) ++ c.objs.map held := by
  refine ⟨h.step h.proper, ?_⟩
  have hview : c'.objs = if mem.toNat = Tlsf.NULL then c.objs
    else ⟨mem.toNat, Tlsf.load c'.mem mem.toNat (words size.toNat)⟩ :: c.objs := h.view
  rw [hview]
  by_cases hm : mem = 0
  · rw [if_pos (toNat_null.2 hm), if_pos hm]
    rfl
  · rw [if_neg (mt toNat_null.1 hm), if_neg hm, List.map_cons]
    unfold held
    rw [Tlsf.load_length]
    rfl

theorem turn_freed (h : Turn P c (freed ptr) c') (ho : ptr.toNat ∈ c.objs.map Tlsf.Obj.ptr) :
    c.Step P (freed ptr) c' ∧ c'.objs = Tlsf.drop c.objs ptr.toNat :=
  ⟨h.step (.inr (List.mem_map.1 ho)), h.view⟩

theorem turn_write {p i v : Nat} (h : Turn P c (.write p i v, Tlsf.NULL) c') :
    c.Step P (.write p i v, Tlsf.NULL) c' ∧ c'.objs.map held = c.objs.map held := by
  refine ⟨h.step h.proper, ?_⟩
  rw [show c'.objs = _ from h.view]
  change (c.objs.map fun o => if o.ptr = p then _ else o).map held = _
  rw [List.map_map]
  apply List.map_congr_left
  intro o _
  change held (if o.ptr = p then _ else o) = held o
  by_cases hp : o.ptr = p
  · rw [if_pos hp]
    unfold held
    rw [List.length_set]
  · rw [if_neg hp]

/-- What the pool has done where a call creates an object. -/
structure Got (P : Nat) (c : Client) (es : List (Req × Nat)) (got : List Area) (c' : Client) : Prop where
  run : Trans.Run (Client.Step P) c es c'
  all : (∀ a ∈ got, a.addr ≠ 0) → c'.objs.map held = got.map place ++ c.objs.map held
  none : (∃ a ∈ got, a.addr = 0) → c'.objs.map held = c.objs.map held

theorem Got.nil : Got P c [] [] c := ⟨.nil, fun _ => rfl, fun _ => rfl⟩

theorem got_malloced (h : Turn P c (malloced size mem) c') : Got P c [malloced size mem] [⟨mem, size⟩] c' := by
  obtain ⟨hs, hk⟩ := turn_malloced h
  refine ⟨.one hs, ?_, ?_⟩
  · intro ha
    rwa [if_neg (ha _ (List.mem_cons_self ..))] at hk
  · rintro ⟨a, ha, ha0⟩
    obtain rfl := List.mem_singleton.1 ha
    rwa [if_pos ha0] at hk

theorem got_one {b : Prop} [Decidable b] (h : Answers P c (if b then [malloced size mem] else []) c') :
    Got P c (if b then [malloced size mem] else []) (if b then [⟨mem, size⟩] else []) c' := by
  by_cases hb : b
  · rw [if_pos hb] at h ⊢
    rw [if_pos hb]
    obtain ⟨c₁, hc, rfl⟩ := h
    exact got_malloced hc
  · rw [if_neg hb] at h ⊢
    rw [if_neg hb]
    cases h
    exact .nil

theorem held_fst (os : List Tlsf.Obj) : (os.map held).map Prod.fst = os.map Tlsf.Obj.ptr := List.map_map ..

theorem held_drop (os : List Tlsf.Obj) (p : Nat) :
    (Tlsf.drop os p).map held = (os.map held).filter (·.1 ≠ p) := by
  rw [List.filter_map]
  rfl

/-- Where the second area of a pool fails, the first one is given back. -/
theorem got_back (hv : PoolInv m P S c) (hmem : mem ≠ 0)
    (h : Answers P c [malloced size mem, malloced size' 0, freed mem] c') :
    Trans.Run (Client.Step P) c [malloced size mem, malloced size' 0, freed mem] c' ∧
      c'.objs.map held = c.objs.map held := by
  obtain ⟨c₁, h₁, c₂, h₂, c₃, h₃, rfl⟩ := h
  obtain ⟨hs₁, hk₁⟩ := turn_malloced h₁
  obtain ⟨hs₂, hk₂⟩ := turn_malloced h₂
  rw [if_neg hmem] at hk₁
  rw [if_pos rfl, List.nil_append, hk₁] at hk₂
  have hptr : c₂.objs.map Tlsf.Obj.ptr = mem.toNat :: c.objs.map Tlsf.Obj.ptr := by
    rw [← held_fst, hk₂, List.map_append, held_fst]
    rfl
  obtain ⟨hs₃, hk₃⟩ := turn_freed h₃ (by rw [hptr]; exact List.mem_cons_self ..)
  refine ⟨((Trans.Run.one hs₁).trans (.one hs₂)).trans (.one hs₃), ?_⟩
  have hnd := pool_nodup ((hv.step hs₁).step hs₂)
  rw [hptr] at hnd
  have hrest : (c.objs.map held).filter (·.1 ≠ mem.toNat) = c.objs.map held := by
    apply List.filter_eq_self.2
    intro p hp
    apply decide_eq_true
    intro he
    apply (List.nodup_cons.1 hnd).1
    rw [← held_fst, ← he]
    exact List.mem_map_of_mem hp
  rw [hk₃, held_drop, hk₂, List.singleton_append, List.filter_cons_of_neg (by simp [place]), hrest]

theorem got_mpf {pk : MPFINIB} {memMpf memMb : Addr} (hv : PoolInv m P S c)
    (h : Answers P c ((Call.acreMpf pk memMpf memMb).mallocs cfg) c') :
    Got P c ((Call.acreMpf pk memMpf memMb).mallocs cfg) ((Call.acreMpf pk memMpf memMb).got cfg) c' := by
  simp only [Call.mallocs, Call.got] at h ⊢
  by_cases hb : pk.mpf = 0
  · simp only [if_pos hb] at h ⊢
    by_cases hm : memMpf = 0
    · rw [if_pos hm, List.append_nil] at h ⊢
      obtain ⟨c₁, h₁, rfl⟩ := h
      obtain ⟨hs, hk⟩ := turn_malloced h₁
      rw [if_pos hm] at hk
      refine ⟨.one hs, ?_, fun _ => hk⟩
      intro ha
      exact absurd hm (ha _ (List.mem_append_right _ (List.mem_singleton_self _)))
    · rw [if_neg hm] at h ⊢
      by_cases hb' : pk.pMpfmb = 0
      · simp only [if_pos hb'] at h ⊢
        by_cases hm' : memMb = 0
        · subst hm'
          rw [if_pos ⟨rfl, hb⟩] at h ⊢
          obtain ⟨hs, hk⟩ := got_back hv hm h
          refine ⟨hs, ?_, fun _ => hk⟩
          intro ha
          exact absurd rfl (ha _ (List.mem_cons_self ..))
        · rw [if_neg fun hand => hm' hand.1] at h ⊢
          obtain ⟨c₁, h₁, c₂, h₂, rfl⟩ := h
          obtain ⟨hs₁, hk₁⟩ := turn_malloced h₁
          obtain ⟨hs₂, hk₂⟩ := turn_malloced h₂
          rw [if_neg hm] at hk₁
          rw [if_neg hm', hk₁] at hk₂
          refine ⟨(Trans.Run.one hs₁).trans (.one hs₂), fun _ => hk₂, ?_⟩
          rintro ⟨a, ha, ha0⟩
          rcases List.mem_cons.1 ha with rfl | ha
          · exact absurd ha0 hm'
          · obtain rfl := List.mem_singleton.1 ha
            exact absurd ha0 hm
      · simp only [if_neg hb', List.append_nil] at h ⊢
        obtain ⟨c₁, h₁, rfl⟩ := h
        exact got_malloced h₁
  · simp only [if_neg hb, List.nil_append, List.append_nil] at h ⊢
    by_cases hb' : pk.pMpfmb = 0
    · have hno : ¬(memMb = 0 ∧ pk.mpf = 0) := fun hand => hb hand.2
      simp only [if_pos hb', if_neg hno] at h ⊢
      obtain ⟨c₁, h₁, rfl⟩ := h
      exact got_malloced h₁
    · simp only [if_neg hb'] at h ⊢
      cases h
      exact .nil

theorem got_mallocs (hv : PoolInv m P S c) (h : Answers P c (call.mallocs cfg) c') :
    Got P c (call.mallocs cfg) (call.got cfg) c' := by
  cases call with
  | acreTsk pk mem => exact got_one h
  | acreDtq pk mem => exact got_one h
  | acrePdq pk mem => exact got_one h
  | acreMpf pk memMpf memMb => exact got_mpf hv h
  | _ =>
    cases h
    exact .nil

/-- The areas of an object are given back. -/
theorem answers_freed {ps : List Addr} (hv : PoolInv m P S c) (hs : c.objs.map held = as.map place)
    (hn : (as.map Area.addr).Nodup) (hp : ps.Nodup) (hm : ∀ p ∈ ps, p ∈ as.map Area.addr)
    (h : Answers P c (ps.map freed) c') : Trans.Run (Client.Step P) c (ps.map freed) c' ∧
      c'.objs.map held = (ps.foldl (Ownership.free Area.addr) as).map place := by
  induction ps generalizing c as with
  | nil =>
    cases h
    exact ⟨.nil, hs⟩
  | cons p ps ih =>
    obtain ⟨c₁, h₁, h⟩ := h
    obtain ⟨hp1, hp2⟩ := List.nodup_cons.1 hp
    obtain ⟨a, ha, rfl⟩ := List.mem_map.1 (hm p (List.mem_cons_self ..))
    have hptr : a.addr.toNat ∈ c.objs.map Tlsf.Obj.ptr := by
      rw [← held_fst, hs]
      exact List.mem_map_of_mem (List.mem_map_of_mem (f := place) ha)
    obtain ⟨hstep, hview⟩ := turn_freed h₁ hptr
    have hkey : c₁.objs.map held = (Ownership.free Area.addr as a.addr).map place := by
      rw [hview, held_drop, hs, Ownership.free_eq_filter hn, List.filter_map]
      apply congrArg (List.map place)
      apply List.filter_congr
      intro b _
      apply decide_eq_decide.2
      exact not_congr BitVec.toNat_inj
    have hrest := ih (hv.step hstep) hkey (Ownership.nodup_free hn _) hp2 ?_ h
    · exact ⟨(Trans.Run.one hstep).trans hrest.1, hrest.2⟩
    · intro q hq
      obtain ⟨b, hb, rfl⟩ := List.mem_map.1 (hm q (.tail _ hq))
      apply List.mem_map_of_mem
      refine (Ownership.mem_free hn).2 ⟨hb, ?_⟩
      intro he
      exact hp1 (he ▸ hq)

end

end Kmm

end AspKernel
