import AspKernel.Kmm

/-! Whatever the kernel is asked for, its pool serves it. -/

namespace AspKernel
namespace Kmm
set_option autoImplicit true
open WordMem (Mem)
open Tlsf (Client PoolInv Place Req poolEnd words)

/-- What holds of the kernel and its pool: what is allocated is what the pool has handed out. -/
structure Inv (cfg : Cfg) (m : Mem) (P S : Nat) (s : State) : Prop where
  reach : Reachable cfg s.kernel
  malloc : MallocInv cfg s.kernel
  pool : PoolInv m P S s.pool
  same : s.pool.objs.map held = s.kernel.core.areas.map place

section
variable {cfg : Cfg} {m : Mem} {P S : Nat} {s s' : State} {e : Event} {es : List Event} {call : Call} {x : ObjKind}
  {id : ID} {k' : Kernel} {c' : Client} {l : List (Req × Nat)}

/-- What one event does to the pool, whose answers the kernel has relied on. -/
structure Served (P : Nat) (s s' : State) (l : List (Req × Nat)) : Prop where
  run : Trans.Run (Client.Step P) s.pool l s'.pool
  same : s'.pool.objs.map held = s'.kernel.core.areas.map place

theorem Served.quiet (h : Inv cfg m P S s) (hl : l = []) (hp : Answers P s.pool l s'.pool)
    (hk : s'.kernel.core.areas = s.kernel.core.areas) : Served P s s' l := by
  subst hl
  rw [Answers] at hp
  refine ⟨hp ▸ .nil, ?_⟩
  rw [hp, hk]
  exact h.same

/-- A call that creates an object. -/
theorem Inv.acre (h : Inv cfg m P S s) (hs : AspKernel.Step cfg s.kernel (.call call) s'.kernel)
    (hp : Answers P s.pool (call.asks cfg s.kernel) s'.pool) (hc : call.acre = some x) :
    Served P s s' (call.asks cfg s.kernel) := by
  have hmem := areas_step hs
  have hasks : call.asks cfg s.kernel = _ := asks_acre hc
  generalize hr : exec cfg s.kernel call = r at hmem
  cases hr ▸ exec_acre s.kernel h.reach.free_lt hc with
  | check hp' hf =>
    apply Served.quiet h ?_ hp hmem
    rw [hasks, if_neg]
    rintro ⟨hl, -⟩
    rw [hl _ hp'] at hf
    cases hf
  | noid hl hf =>
    apply Served.quiet h ?_ hp hmem
    rw [hasks, if_neg]
    rintro ⟨-, hne⟩
    exact hne hf
  | nomem hl hf =>
    rw [hasks, if_pos ⟨hl, hf⟩] at hp ⊢
    have hg := got_mallocs h.pool hp
    refine ⟨hg.run, ?_⟩
    rw [hmem]
    refine Eq.trans ?_ h.same
    rcases exec_nomem h.reach.free_lt hl hc (congrArg Res.ercd hr) with hno | h0
    · have hall := hg.all
      rw [hno] at hall
      exact hall (fun a ha => absurd ha List.not_mem_nil)
    · exact hg.none h0
  | created hl hf ha hA hgot hm hw =>
    rw [hasks, if_pos ⟨hl, freeList_ne hf⟩] at hp ⊢
    have hg := got_mallocs h.pool hp
    refine ⟨hg.run, ?_⟩
    have hareas : s'.kernel.core.areas = call.got cfg ++ s.kernel.core.areas :=
      hmem.trans (congrArg Prod.fst hgot)
    rw [hareas, List.map_append, ← h.same]
    exact hg.all hm

/-- A call that deletes an object. -/
theorem Inv.del (h : Inv cfg m P S s) (hs : AspKernel.Step cfg s.kernel (.call call) s'.kernel)
    (hp : Answers P s.pool (call.asks cfg s.kernel) s'.pool) (hc : call.del = some (x, id)) :
    Served P s s' (call.asks cfg s.kernel) := by
  have hno : call.acre = none := by
    cases call <;> first
      | rfl
      | cases hc
  have hmem := areas_step hs
  have hasks : call.asks cfg s.kernel = if (exec cfg s.kernel call).ercd = some E_OK then
      (s.kernel.owned x (index id)).map freed else [] := by
    unfold Call.asks
    rw [hno, hc]
  rcases exec_delete cfg s.kernel hc with ⟨e, hne, he⟩ | ⟨hok, hd, hex, -, hm⟩
  · apply Served.quiet h ?_ hp
    · rw [hmem, he]
      rfl
    · rw [hasks, he]
      apply if_neg
      intro h0
      exact hne (Option.some.inj h0)
  · rw [hasks, if_pos hok, ← map_allocated] at hp ⊢
    have hv := h.malloc
    rw [← areasOf_exist hd hex] at hp hm ⊢
    have hin : ∀ p ∈ (s.kernel.areasOf cfg (x, index id)).map Area.addr, p ∈ s.kernel.core.areas.map Area.addr := by
      intro p hp'
      obtain ⟨a, ha, rfl⟩ := List.mem_map.1 hp'
      exact List.mem_map_of_mem ((hv.holds.mem a).2 ⟨_, ha⟩)
    obtain ⟨hrun, hsame⟩ := answers_freed h.pool h.same hv.holds.nodup (hv.holds.each _) hin hp
    refine ⟨hrun, ?_⟩
    have hfree := hv.freed hd hex
    rw [← areasOf_exist hd hex] at hfree
    rw [hsame, hmem]
    exact congrArg (List.map place) (congrArg Prod.fst (hm.trans hfree)).symm

theorem asks_kinds (h : call.asks cfg s.kernel ≠ [] ∨ call.mem) :
    (∃ x, call.acre = some x) ∨ ∃ x id, call.del = some (x, id) := by
  rcases h with h | h
  · unfold Call.asks at h
    rcases hc : call.acre with _ | x
    · rcases hd : call.del with _ | ⟨x, id⟩
      · rw [hc, hd] at h
        exact absurd rfl h
      · exact .inr ⟨x, id, rfl⟩
    · exact .inl ⟨x, rfl⟩
  · obtain ⟨x, hK⟩ := kinds_of_mem h
    rcases kinds_cases hK with hc | ⟨id, hc⟩
    · exact .inl ⟨x, hc⟩
    · exact .inr ⟨x, id, hc⟩

theorem Inv.served (h : Inv cfg m P S s) (hs : Step cfg P s e s') : Served P s s' (e.asks cfg s.kernel) := by
  obtain ⟨hk, hp⟩ := hs
  cases e with
  | write p i v =>
    obtain ⟨c₁, h₁, hc⟩ := hp
    obtain ⟨hstep, hsame⟩ := turn_write h₁
    refine ⟨hc ▸ .one hstep, ?_⟩
    rw [show s'.kernel = s.kernel from hk, show s'.pool = c₁ from hc, hsame]
    exact h.same
  | kernel e =>
    cases e with
    | call call =>
      by_cases hK : call.asks cfg s.kernel ≠ [] ∨ call.mem
      · rcases asks_kinds hK with ⟨x, hc⟩ | ⟨x, id, hc⟩
        · exact h.acre hk hp hc
        · exact h.del hk hp hc
      · obtain ⟨hno, hM⟩ := not_or.1 hK
        refine .quiet h (not_not.1 hno) hp (congrArg Prod.fst (h.reach.runInv.memory hk ?_))
        intro call' he
        cases he
        exact hM
    | _ =>
      refine .quiet h rfl hp (congrArg Prod.fst (h.reach.runInv.memory hk ?_))
      intro call' he
      cases he

/-- The pool answers as the kernel relies on: an area that is new lies apart from those that are allocated. -/
theorem Inv.step (h : Inv cfg m P S s) (hs : Step cfg P s e s') :
    (∀ e', e = .kernel e' → MallocStep cfg s.kernel e' s'.kernel) ∧ Inv cfg m P S s' := by
  have hv := h.served hs
  have hpool := hv.run.invariant (fun _ _ _ => PoolInv.step) h.pool
  have hnd : (s'.kernel.core.areas.map Area.addr).Nodup := by
    have hn := pool_nodup hpool
    rw [← held_fst, hv.same, List.map_map] at hn
    refine List.Nodup.of_map BitVec.toNat ?_
    rw [List.map_map]
    exact hn
  cases e with
  | write p i v =>
    have hk : s'.kernel = s.kernel := hs.kernel
    refine ⟨fun e' he => Event.noConfusion he, ?_, ?_, hpool, hv.same⟩
    · rw [hk]
      exact h.reach
    · rw [hk]
      exact h.malloc
  | kernel e =>
    have hk : AspKernel.Step cfg s.kernel e s'.kernel := hs.kernel
    have hstep : MallocStep cfg s.kernel e s'.kernel := by
      refine ⟨hk, ?_⟩
      rintro call rfl id hid hpos
      rcases hc : call.acre with _ | x
      · rw [got_of_not_acre hc]
        exact ⟨List.nodup_nil, fun a ha => absurd ha List.not_mem_nil⟩
      · have hareas := h.reach.created_areas hk hc hid hpos
        rw [hareas, List.map_append] at hnd
        obtain ⟨h1, -, h2⟩ := List.nodup_append.1 hnd
        refine ⟨h1, ?_⟩
        intro a ha ha'
        exact h2 _ (List.mem_map_of_mem ha) _ ha' rfl
    refine ⟨?_, h.reach.step hk, h.malloc.step h.reach hstep, hpool, hv.same⟩
    rintro e' he
    cases he
    exact hstep

theorem Inv.start (cfg : Cfg) (hp : Place m P S) : Inv cfg m P S (.init cfg m P S) := by
  refine ⟨boot_reachable cfg, .boot cfg, .start hp, ?_⟩
  rw [show (State.init cfg m P S).kernel.core.areas = [] from congrArg Prod.fst (boot_memory cfg)]
  rfl

/-- Each area lies in the pool, apart from the others. -/
theorem Inv.apart (h : Inv cfg m P S s) {a : Area} (ha : a ∈ s.kernel.core.areas) :
    P + 3208 ≤ a.addr.toNat ∧ a.addr.toNat + a.size.toNat ≤ poolEnd P S ∧
      ∀ b ∈ s.kernel.core.areas, a ≠ b →
        a.addr.toNat + a.size.toNat ≤ b.addr.toNat ∨ b.addr.toNat + b.size.toNat ≤ a.addr.toNat := by
  obtain ⟨bs, ls, hs⟩ := h.pool.serves
  have hobj (a : Area) (ha : a ∈ s.kernel.core.areas) : ∃ o ∈ s.pool.objs, o.ptr = a.addr.toNat ∧
      o.data.length = words a.size.toNat := by
    have hplace : place a ∈ s.pool.objs.map held := h.same ▸ List.mem_map_of_mem ha
    obtain ⟨o, ho, he⟩ := List.mem_map.1 hplace
    exact ⟨o, ho, congrArg Prod.fst he, congrArg Prod.snd he⟩
  obtain ⟨o, ho, hptr, hlen⟩ := hobj a ha
  obtain ⟨habove, hbelow, -, hapart⟩ := hs.room ho
  rw [hptr, hlen] at hbelow hapart
  rw [hptr] at habove
  have hw := (Tlsf.four_words a.size.toNat).1
  refine ⟨habove, by omega, ?_⟩
  intro b hb hne
  obtain ⟨o', ho', hptr', hlen'⟩ := hobj b hb
  have hne' : o'.ptr ≠ a.addr.toNat := by
    rw [hptr']
    intro he
    exact hne (Ownership.eq_of_key h.malloc.holds.nodup ha hb (BitVec.toNat_inj.1 he.symm))
  have hw' := (Tlsf.four_words b.size.toNat).1
  have hor := hapart o' (Tlsf.mem_drop.2 ⟨ho', hne'⟩)
  rw [hptr', hlen'] at hor
  omega

/-- The kernel on its pool: what the results about the areas take for granted of `kernel_malloc` holds, and
what those about the pool take for granted of its clients: it is given back only what has been allocated.
What is allocated for the objects is what the pool has handed out; each area lies in the pool, with all
of its bytes, apart from the others. -/
theorem kernel_pool (hp : Place m P S) (h : Trans.Run (Step cfg P) (.init cfg m P S) es s) :
    Trans.Run (MallocStep cfg) (boot cfg) (es.filterMap Event.seen) s.kernel ∧
    (∃ rs, Trans.Run (Client.Step P) (.init m P S) rs s.pool) ∧
    s.pool.objs.map held = s.kernel.core.areas.map place ∧
    ∀ a ∈ s.kernel.core.areas, P + 3208 ≤ a.addr.toNat ∧ a.addr.toNat + a.size.toNat ≤ poolEnd P S ∧
      ∀ b ∈ s.kernel.core.areas, a ≠ b →
        a.addr.toNat + a.size.toNat ≤ b.addr.toNat ∨ b.addr.toNat + b.size.toNat ≤ a.addr.toNat := by
  have hinv : Inv cfg m P S s := h.invariant (fun _ _ _ hi hs => (hi.step hs).2) (.start cfg hp)
  have hruns : Trans.Run (MallocStep cfg) (boot cfg) (es.filterMap Event.seen) s.kernel ∧
      ∃ rs, Trans.Run (Client.Step P) (.init m P S) rs s.pool := by
    apply h.relation (I := Inv cfg m P S)
      (R := fun s es t => Trans.Run (MallocStep cfg) s.kernel (es.filterMap Event.seen) t.kernel ∧
        ∃ rs, Trans.Run (Client.Step P) s.pool rs t.pool)
    · intro t e u hi hs
      exact (hi.step hs).2
    · exact .start cfg hp
    · exact ⟨.nil, [], .nil⟩
    · rintro es t e u hi ⟨hk, rs, hr⟩ hs
      refine ⟨?_, rs ++ e.asks cfg t.kernel, hr.trans (hi.served hs).run⟩
      rw [List.filterMap_append]
      cases e with
      | kernel e => exact .snoc hk ((hi.step hs).1 e rfl)
      | write p i v =>
        rw [show u.kernel = t.kernel from hs.kernel]
        exact (List.append_nil _).symm ▸ hk
  exact ⟨hruns.1, hruns.2, hinv.same, fun a ha => hinv.apart ha⟩

theorem answers_of {c : Client} (h : answers P c l = some c') : Answers P c l c' := by
  induction l generalizing c with
  | nil =>
    cases h
    rfl
  | cons r l ih =>
    unfold answers at h
    by_cases hr : Proper c.objs r.1 ∧ (Tlsf.serve P c.mem r.1).2 = r.2
    · simp only [if_pos hr] at h
      exact ⟨_, ⟨hr.1, Prod.ext rfl hr.2, by rw [hr.2]⟩, ih h⟩
    · simp only [if_neg hr] at h
      cases h

theorem step_of (h : s.step cfg P e = some s') : Step cfg P s e s' := by
  cases e with
  | kernel e =>
    obtain ⟨k, hk, h⟩ := Option.bind_eq_some_iff.1 h
    obtain ⟨c, hc, h⟩ := Option.bind_eq_some_iff.1 h
    cases h
    exact ⟨hk, answers_of hc⟩
  | write p i v =>
    obtain ⟨c, hc, h⟩ := Option.map_eq_some_iff.1 h
    cases h
    exact ⟨rfl, answers_of hc⟩

/-- A pool is created and written to. -/
theorem kernel_pool_mpf : ∃ es s, Trans.Run (Step .dynMpf 4096) (.init .dynMpf Tlsf.zeros 4096 4096) es s ∧
    s.kernel.core.areas = [⟨7360, 12⟩, ⟨7304, 48⟩] ∧ s.pool.objs.map held = [(7360, 3), (7304, 12)] := by
  have h : (([.kernel (.call (.acreMpf ⟨TA_NULL, 3, 16, 0, 0⟩ 7304 7360)), .write 7304 1 5] : List Event).foldlM
      (State.step .dynMpf 4096) (.init .dynMpf Tlsf.zeros 4096 4096)).any
      (fun s => decide (s.kernel.core.areas = [⟨7360, 12⟩, ⟨7304, 48⟩])) = true := by
    decide +kernel
  obtain ⟨s, hs, h⟩ := (Option.any_eq_true _ _).1 h
  have hareas := of_decide_eq_true h
  have hrun := (Trans.Run.of_foldlM hs).restrict (P := fun _ => True) (fun _ _ _ _ => step_of) fun _ _ => trivial
  obtain ⟨-, -, hsame, -⟩ := kernel_pool Tlsf.place_zeros hrun
  refine ⟨_, s, hrun, hareas, ?_⟩
  rw [hsame, hareas]
  rfl

theorem mallocs_one {a : Area} (hg : call.got cfg = [a]) : call.mallocs cfg = [malloced a.size a.addr] := by
  cases call with
  | acreTsk pk mem => exact one_malloced hg
  | acreDtq pk mem => exact one_malloced hg
  | acrePdq pk mem => exact one_malloced hg
  | acreMpf pk memMpf memMb =>
    simp only [Call.got, Call.mallocs] at hg ⊢
    by_cases hb : pk.mpf = 0
    · by_cases hb' : pk.pMpfmb = 0
      · simp only [if_pos hb, if_pos hb'] at hg
        cases hg
      · simp only [if_pos hb, if_neg hb', ite_self, List.append_nil, List.nil_append] at hg ⊢
        cases hg
        rfl
    · have hno : ¬(memMb = 0 ∧ pk.mpf = 0) := fun hand => hb hand.2
      by_cases hb' : pk.pMpfmb = 0
      · simp only [if_neg hb, if_pos hb', if_neg hno, List.append_nil, List.nil_append] at hg ⊢
        cases hg
        rfl
      · simp only [if_neg hb, if_neg hb'] at hg
        cases hg
  | _ => cases hg

/-- A creation finds no memory exactly if it has got none. -/
theorem Inv.nomem_iff (h : Inv cfg m P S s) {a : Area} (hc : call.acre = some x) (hg : call.got cfg = [a])
    (ha : call.asks cfg s.kernel ≠ []) : (exec cfg s.kernel call).ercd = some E_NOMEM ↔ a.addr = 0 := by
  have hpass : (∀ p ∈ call.checks cfg s.kernel.core, p.1 = true) ∧ s.kernel.core.freeList x ≠ [] := by
    by_contra hno
    exact ha ((asks_acre hc).trans (if_neg hno))
  constructor
  · intro he
    rcases exec_nomem h.reach.free_lt hpass.1 hc he with hnil | ⟨a', ha', h0⟩
    · cases hg.symm.trans hnil
    · rw [hg] at ha'
      rwa [← List.mem_singleton.1 ha']
  · intro h0
    generalize hr : exec cfg s.kernel call = r
    cases hr ▸ exec_acre s.kernel h.reach.free_lt hc with
    | check hp hf =>
      rw [hpass.1 _ hp] at hf
      cases hf
    | noid hl hf => exact absurd hf hpass.2
    | nomem hl hf => rfl
    | created hl hf ha hA hgot hm hw => exact absurd h0 (hm a (hg ▸ List.mem_singleton_self a))

/-- The memory of the kernel is never lost: where no object has got an area, its pool is one free block again.
The creation of an object that needs one area finds no memory exactly if every free block is smaller than
the size of the area rounded up to a size class. -/
theorem kernel_pool_full (hp : Place m P S) (h : Trans.Run (Step cfg P) (.init cfg m P S) es s) :
    ∃ bs, Tlsf.printAllBlocks s.pool.mem P S = bs ++ [⟨poolEnd P S, 0, false⟩] ∧
      (s.kernel.core.areas = [] →
        bs = [Tlsf.areaBlk P, ⟨P + 3200, (Tlsf.initMemoryPool m S P).2, true⟩]) ∧
      ∀ call a s', Step cfg P s (.kernel (.call call)) s' → call.got cfg = [a] → call.asks cfg s.kernel ≠ [] →
        ((exec cfg s.kernel call).ercd = some E_NOMEM ↔
          ∀ b ∈ bs, b.free = true → b.size < Tlsf.granted a.size.toNat) := by
  have hinv : Inv cfg m P S s := h.invariant (fun _ _ _ hi hs => (hi.step hs).2) (.start cfg hp)
  obtain ⟨bs, ls, hs, hwalk⟩ := hinv.pool.blocks hp.room
  refine ⟨bs, hwalk, ?_, ?_⟩
  · intro h0
    have hobjs : s.pool.objs.map held = [] := by
      rw [hinv.same, h0]
      rfl
    rw [List.map_eq_nil_iff.1 hobjs] at hs
    exact hs.whole hp
  · intro call a s' hstep hg ha
    obtain ⟨x, hc⟩ : ∃ x, call.acre = some x := by
      rcases hc : call.acre with _ | x
      · cases hg.symm.trans (got_of_not_acre hc)
      · exact ⟨x, rfl⟩
    have hasks : call.asks cfg s.kernel = [malloced a.size a.addr] := by
      rw [asks_acre hc] at ha ⊢
      by_cases hpass : (∀ p ∈ call.checks cfg s.kernel.core, p.1 = true) ∧ s.kernel.core.freeList x ≠ []
      · rw [if_pos hpass]
        exact mallocs_one hg
      · exact absurd (if_neg hpass) ha
    have hpool : Answers P s.pool (call.asks cfg s.kernel) s'.pool := hstep.pool
    rw [hasks] at hpool
    obtain ⟨c₁, hturn, -⟩ := hpool
    rw [hinv.nomem_iff hc hg ha, ← hs.heap.malloc_null hturn.proper]
    have hans : (Tlsf.mallocEx s.pool.mem a.size.toNat P).2 = a.addr.toNat := congrArg Prod.snd hturn.answer
    rw [hans]
    exact toNat_null.symm

/-- A pool is created and deleted. -/
theorem kernel_pool_full_deleted : ∃ es s, Trans.Run (Step .dynMpf 4096) (.init .dynMpf Tlsf.zeros 4096 4096) es s ∧
    es.length = 2 ∧ Tlsf.printAllBlocks s.pool.mem 4096 4096 =
      [Tlsf.areaBlk 4096, ⟨7296, (Tlsf.initMemoryPool Tlsf.zeros 4096 4096).2, true⟩, ⟨8184, 0, false⟩] := by
  have h : (([.kernel (.call (.acreMpf ⟨TA_NULL, 3, 16, 0, 0⟩ 7304 7360)), .kernel (.call (.delMpf 2))] : List Event).foldlM
      (State.step .dynMpf 4096) (.init .dynMpf Tlsf.zeros 4096 4096)).any
      (fun s => decide (s.kernel.core.areas = [])) = true := by
    decide +kernel
  obtain ⟨s, hs, h⟩ := (Option.any_eq_true _ _).1 h
  have hrun := (Trans.Run.of_foldlM hs).restrict (P := fun _ => True) (fun _ _ _ _ => step_of) fun _ _ => trivial
  obtain ⟨bs, hwalk, hwhole, -⟩ := kernel_pool_full Tlsf.place_zeros hrun
  refine ⟨_, s, hrun, rfl, ?_⟩
  rw [hwalk, hwhole (of_decide_eq_true h)]
  rfl

end

end Kmm

end AspKernel
