import AspKernel.TlsfServe

/-! Whatever the clients of a pool ask for, from its initialisation on. -/

namespace AspKernel.Tlsf
set_option autoImplicit true
open WordMem

/-- Blocks one behind the other from an address up to another one. -/
def Tiles : Nat → List Blk → Nat → Prop
  | a, [], e => a = e
  | a, b :: l, e => b.addr = a ∧ 8 ≤ b.size ∧ 8 ∣ b.size ∧ Tiles (a + 8 + b.size) l e

/-- A place that `init_memory_pool` makes a pool of. -/
structure Place (m : Mem) (P S : Nat) : Prop where
  ne_null : P ≠ NULL
  aligned : P &&& PTR_MASK = 0
  room : 3244 ≤ S
  small : S ≤ 2 ^ 30
  new : m P ≠ TLSF_SIGNATURE

/-- The clients of a pool that has just been initialised. -/
def Client.init (m : Mem) (P S : Nat) : Client := ⟨(initMemoryPool m S P).1, []⟩

instance (os : List Obj) (r : Req) : Decidable (r.Legal os) := by
  cases r <;> unfold Req.Legal <;> infer_instance

/-- The run of requests, each answered from the memory as it is. -/
def Client.run (P : Nat) : Client → List Req → Option (List (Req × Nat) × Client)
  | c, [] => some ([], c)
  | c, r :: rs =>
    if r.Legal c.objs then
      let a := serve P c.mem r
      (Client.run P ⟨a.1, view a.1 a.2 c.objs r⟩ rs).map fun x => ((r, a.2) :: x.1, x.2)
    else none

/-- What holds of a pool and its clients. -/
structure PoolInv (m₀ : Mem) (P S : Nat) (c : Client) : Prop where
  serves : ∃ bs ls, Serves c.mem P (poolEnd P S) bs ls c.objs
  head : c.mem (areaHead P) = P + 3192
  next : c.mem (P + 3196) = NULL
  outside : ∀ x, (x < P ∨ poolEnd P S + 8 ≤ x) → c.mem x = m₀ x

section
variable {m m₀ : Mem} {P S a e n s x size : Nat} {p : Option Nat} {bs : List Blk} {ls : Lists} {c c' : Client}
  {es : List (Req × Nat)}

theorem PoolInv.start (h : Place m P S) : PoolInv m P S (.init m P S) := by
  obtain ⟨ls, hheap, -, hhead, hnext, hout⟩ := initMemoryPool_spec h.ne_null h.aligned h.room h.small h.new
  exact ⟨⟨_, ls, .start hheap rfl⟩, hhead, hnext, hout⟩

theorem PoolInv.served {r : Req × Nat} (h : PoolInv m P S c) (hs : c.Step P r c') :
    Served P (poolEnd P S) c.mem c.objs r.1 r.2 c'.mem c'.objs := by
  obtain ⟨bs, ls, h⟩ := h.serves
  rw [hs.view]
  exact h.serve hs.legal hs.answer

theorem PoolInv.step {r : Req × Nat} (h : PoolInv m P S c) (hs : c.Step P r c') : PoolInv m P S c' := by
  obtain ⟨-, hserves, hfixed⟩ := h.served hs
  refine ⟨hserves, (hfixed _ (.inl ?_)).trans h.head, (hfixed _ (.inr (.inr ?_))).trans h.next, ?_⟩
  · unfold areaHead
    omega
  · omega
  · intro x hx
    apply (hfixed x ?_).trans (h.outside x hx)
    unfold Fixed
    omega

theorem PoolInv.run (hp : Place m P S) (h : Trans.Run (Client.Step P) (.init m P S) es c) : PoolInv m P S c :=
  h.invariant (fun _ _ _ => PoolInv.step) (.start hp)

theorem Client.run_steps {rs : List Req} (h : c.run P rs = some (es, c')) : Trans.Run (Client.Step P) c es c' := by
  induction rs generalizing c es with
  | nil =>
    cases h
    exact .nil
  | cons r rs ih =>
    unfold Client.run at h
    by_cases hr : r.Legal c.objs
    · rw [if_pos hr] at h
      obtain ⟨⟨es', c''⟩, hrest, he⟩ := Option.map_eq_some_iff.1 h
      cases he
      exact (Trans.Run.one ⟨hr, rfl, rfl⟩).trans (ih hrest)
    · rw [if_neg hr] at h
      cases h

/-- The pool refines objects that keep what has been written to them: every run of the calls is a run of
promises. The objects lie in the pool, each apart from the others, and the memory holds them. -/
theorem pool_refines (hp : Place m P S) (h : Trans.Run (Client.Step P) (.init m P S) es c) :
    Trans.Run (fun os r os' => Promise P (poolEnd P S) os r.1 r.2 os') [] es c.objs ∧
      ∀ o ∈ c.objs, load c.mem o.ptr o.data.length = o.data ∧ Room P (poolEnd P S) (drop c.objs o.ptr) o := by
  refine ⟨?_, ?_⟩
  · apply h.relation (I := PoolInv m P S)
      (R := fun s es t => Trans.Run (fun os r os' => Promise P (poolEnd P S) os r.1 r.2 os') s.objs es t.objs)
    · intro t r u
      exact PoolInv.step
    · exact .start hp
    · exact .nil
    · intro es t r u ht hr hs
      exact .snoc hr (ht.served hs).promise
  · intro o ho
    obtain ⟨bs, ls, hs⟩ := (PoolInv.run hp h).serves
    exact ⟨hs.data o ho, hs.room ho⟩

/-- A pool of 4096 bytes in a memory of zeros. -/
def zeros : Mem := ⟨fun _ => 0⟩

theorem place_zeros : Place zeros 4096 4096 := by
  refine ⟨?_, ?_, ?_, ?_, ?_⟩ <;> decide

theorem Client.run_any (P : Nat) (c : Client) (rs : List Req) (f : List (Req × Nat) × Client → Bool)
    (h : (c.run P rs).any f = true) : ∃ es c', Trans.Run (Client.Step P) c es c' ∧ f (es, c') = true := by
  obtain ⟨⟨es, c'⟩, hrun, hf⟩ := (Option.any_eq_true _ _).1 h
  exact ⟨es, c', run_steps hrun, hf⟩

/-- A word that has been written stays when its object moves. -/
theorem pool_refines_move : ∃ es c, Trans.Run (Client.Step 4096) (.init zeros 4096 4096) es c ∧
    es.map Prod.snd = [7304, NULL, 7328, 7344] ∧ load c.mem 7344 6 = [0, 5, 0, 0, 0, 0] := by
  obtain ⟨es, c, hrun, hf⟩ := Client.run_any 4096 (.init zeros 4096 4096)
    [.malloc 12, .write 7304 1 5, .malloc 8, .realloc 7304 24]
    (fun x => decide (x.1.map Prod.snd = [7304, NULL, 7328, 7344] ∧
      x.2.objs = [⟨7344, [0, 5, 0, 0, 0, 0]⟩, ⟨7328, [0, 0]⟩])) (by decide +kernel)
  obtain ⟨hes, hobjs⟩ := of_decide_eq_true hf
  have hload := ((pool_refines place_zeros hrun).2 ⟨7344, [0, 5, 0, 0, 0, 0]⟩ (by rw [hobjs]; simp)).1
  exact ⟨es, c, hrun, hes, hload⟩

theorem Prefix.length_le (h : Prefix m p a bs e) : a + 16 * bs.length ≤ e := by
  induction bs generalizing p a with
  | nil => exact Nat.le_of_eq h
  | cons b bs ih =>
    have hle := ih h.2
    have hmin := h.1.min
    rw [List.length_cons]
    omega

theorem Prefix.tiles (h : Prefix m p a bs e) : Tiles a bs e := by
  induction bs generalizing p a with
  | nil => exact h
  | cons b bs ih => exact ⟨h.1.addr, h.1.min, h.1.dvd, ih h.2⟩

theorem Prefix.apart (h : Prefix m p a bs e) : bs.IsChain fun b b' => ¬(b.free = true ∧ b'.free = true) := by
  induction bs generalizing p a with
  | nil => exact .nil
  | cons b bs ih =>
    obtain ⟨hb, hbs⟩ := h
    have hchain := ih hbs
    cases bs with
    | nil => exact .singleton b
    | cons b' bs =>
      apply List.IsChain.cons_cons ?_ hchain
      rintro ⟨hf, hf'⟩
      have hnone := hbs.1.apart hf'
      unfold Blk.back at hnone
      rw [hf] at hnone
      cases hnone

theorem tagWord_free_eq (h : 4 ∣ s) (f p : Bool) : decide (tagWord s f p &&& FREE_BLOCK = FREE_BLOCK) = f := by
  rw [show tagWord s f p &&& FREE_BLOCK = _ from tagWord_and h f p (by decide)]
  cases f <;> cases p <;> rfl

/-- The headers lead from block to block up to the end. -/
theorem blocksFrom_eq (h : Suffix m p a bs e) (hn : bs.length < n) (he : e < a + 2 ^ 30) :
    blocksFrom m n a = bs ++ [⟨e, 0, false⟩] := by
  induction bs generalizing p a n with
  | nil =>
    obtain ⟨rfl, hctl⟩ := h
    cases n with
    | zero => cases hn
    | succ n =>
      unfold blocksFrom
      rw [hctl.word, tagWord_size (by decide) (by decide), tagWord_free_eq (by decide)]
      rfl
  | cons b bs ih =>
    obtain ⟨hb, hbs⟩ := h
    have hle := hbs.le
    have hdvd := hb.dvd
    have hmin := hb.min
    cases n with
    | zero => cases hn
    | succ n =>
      have hrest := ih hbs (Nat.lt_of_succ_lt_succ hn) (by omega)
      unfold blocksFrom
      rw [hb.ctl.word, tagWord_size (by omega) (by omega), tagWord_free_eq (by omega), if_pos (by omega)]
      change _ :: blocksFrom m n (a + 8 + b.size) = _
      rw [hrest, ← hb.addr]
      rfl

theorem areasFrom_null (m : Mem) (n : Nat) : areasFrom m n NULL = [] := by
  cases n with
  | zero => rfl
  | succ n => exact if_pos rfl

/-- What the walk over all blocks shows. -/
theorem PoolInv.blocks (h : PoolInv m P S c) (hS : 3244 ≤ S) : ∃ bs ls, Serves c.mem P (poolEnd P S) bs ls c.objs ∧
    printAllBlocks c.mem P S = bs ++ [⟨poolEnd P S, 0, false⟩] := by
  obtain ⟨bs, ls, hs⟩ := h.serves
  refine ⟨bs, ls, hs, ?_⟩
  have hlen := hs.heap.blocks.toPrefix.length_le
  have hsm := hs.heap.small
  obtain ⟨k, rfl⟩ : ∃ k, S = k + 1 := ⟨S - 1, by omega⟩
  have hfuel : bs.length < k + 1 := by
    unfold poolEnd at hlen
    omega
  have hblocks := blocksFrom_eq hs.heap.blocks hfuel hsm
  unfold printAllBlocks
  rw [h.head]
  unfold areasFrom
  rw [if_neg (by unfold NULL; omega), show AreaInfo.next (P + 3192) = P + 3196 from rfl, h.next, areasFrom_null,
    List.append_nil]
  exact hblocks

/-- After every run the blocks tile the pool, no two free ones stand side by side, and the used ones are
that of the area and one for each object. -/
theorem pool_tiled (hp : Place m P S) (h : Trans.Run (Client.Step P) (.init m P S) es c) :
    ∃ bs, printAllBlocks c.mem P S = bs ++ [⟨poolEnd P S, 0, false⟩] ∧ Tiles (P + 3184) bs (poolEnd P S) ∧
      (bs.IsChain fun b b' => ¬(b.free = true ∧ b'.free = true)) ∧ areaBlk P ∈ bs ∧
      (∀ b ∈ bs, b.free = false → b ≠ areaBlk P → ∃ o ∈ c.objs, Of o b) ∧
      ∀ o ∈ c.objs, ∃ b ∈ bs, b.free = false ∧ b ≠ areaBlk P ∧ Of o b := by
  obtain ⟨bs, ls, hs, hwalk⟩ := (PoolInv.run hp h).blocks hp.room
  have hpre := hs.heap.blocks.toPrefix
  refine ⟨bs, hwalk, hpre.tiles, hpre.apart, (mem_used.1 hs.owners.area).1, ?_, ?_⟩
  · intro b hb hf
    exact hs.owners.some b (mem_used.2 ⟨hb, hf⟩)
  · intro o ho
    obtain ⟨b, hb, hne, hof⟩ := hs.owners.each o ho
    obtain ⟨hb, hf⟩ := mem_used.1 hb
    exact ⟨b, hb, hf, hne, hof⟩

theorem pool_tiled_two : ∃ es c, Trans.Run (Client.Step 4096) (.init zeros 4096 4096) es c ∧
    printAllBlocks c.mem 4096 4096 =
      [areaBlk 4096, ⟨7296, 16, false⟩, ⟨7320, 8, false⟩, ⟨7336, 840, true⟩, ⟨8184, 0, false⟩] ∧
    ∃ o ∈ c.objs, Of o ⟨7320, 8, false⟩ := by
  obtain ⟨es, c, hrun, hf⟩ := Client.run_any 4096 (.init zeros 4096 4096) [.malloc 12, .malloc 8]
    (fun x => decide (printAllBlocks x.2.mem 4096 4096 =
      [areaBlk 4096, ⟨7296, 16, false⟩, ⟨7320, 8, false⟩, ⟨7336, 840, true⟩, ⟨8184, 0, false⟩])) (by decide +kernel)
  have hwalk := of_decide_eq_true hf
  obtain ⟨bs, hbs, -, -, -, hsome, -⟩ := pool_tiled place_zeros hrun
  refine ⟨es, c, hrun, hwalk, ?_⟩
  apply hsome
  · have hbs' : bs = [areaBlk 4096, ⟨7296, 16, false⟩, ⟨7320, 8, false⟩, ⟨7336, 840, true⟩] :=
      List.append_cancel_right (hbs.symm.trans hwalk)
    rw [hbs']
    simp
  · rfl
  · decide

/-- A request fails exactly if no free block has the size that it would be granted. -/
theorem Heap.malloc_null (h : Heap m P e bs ls) (hs : size ≤ MAX_REQUEST) :
    (mallocEx m size P).2 = NULL ↔ ∀ b ∈ bs, b.free = true → b.size < granted size := by
  rcases mallocEx_spec h hs with ⟨hnull, hnone⟩ | ⟨L, b, R, m', s', bs', ls', rfl, hf, hm', hg, hle, -⟩
  · rw [hnull]
    exact ⟨fun _ => hnone, fun _ => rfl⟩
  · rw [hm']
    constructor
    · intro h0
      unfold NULL at h0
      omega
    · intro hall
      have hlt := hall b (List.mem_append_right _ (List.mem_cons_self ..)) hf
      omega

theorem granted_le (size : Nat) : blockSize size ≤ granted size ∧ 32 * granted size ≤ 33 * blockSize size :=
  ⟨SizeClass.le_round 5 6 _, SizeClass.round_le (L := 5) (o := 6) (by decide) _⟩

/-- After every run a request fails exactly if every free block is smaller than its size rounded up to a
size class, which is more than the size itself by one part in 32 at most. -/
theorem malloc_fit (hp : Place m P S) (h : Trans.Run (Client.Step P) (.init m P S) es c) :
    ∃ bs, printAllBlocks c.mem P S = bs ++ [⟨poolEnd P S, 0, false⟩] ∧ ∀ size ≤ MAX_REQUEST,
      blockSize size = max 8 (RoundUp.up 8 size) ∧ blockSize size ≤ granted size ∧
      32 * granted size ≤ 33 * blockSize size ∧
      ((mallocEx c.mem size P).2 = NULL ↔ ∀ b ∈ bs, b.free = true → b.size < granted size) := by
  obtain ⟨bs, ls, hs, hwalk⟩ := (PoolInv.run hp h).blocks hp.room
  refine ⟨bs, hwalk, ?_⟩
  intro size hsize
  obtain ⟨h1, h2⟩ := granted_le size
  refine ⟨blockSize_eq ?_, h1, h2, hs.heap.malloc_null hsize⟩
  unfold MAX_REQUEST at hsize
  omega

theorem malloc_fit_full : ∃ es c, Trans.Run (Client.Step 4096) (.init zeros 4096 4096) es c ∧
    (mallocEx c.mem 100 4096).2 = NULL := by
  obtain ⟨es, c, hrun, hf⟩ := Client.run_any 4096 (.init zeros 4096 4096) [.malloc 800]
    (fun x => decide (printAllBlocks x.2.mem 4096 4096 =
      [areaBlk 4096, ⟨7296, 800, false⟩, ⟨8104, 72, true⟩, ⟨8184, 0, false⟩])) (by decide +kernel)
  obtain ⟨bs, hbs, hfit⟩ := malloc_fit place_zeros hrun
  refine ⟨es, c, hrun, (hfit 100 (by decide)).2.2.2.2 ?_⟩
  have hbs' : bs = [areaBlk 4096, ⟨7296, 800, false⟩, ⟨8104, 72, true⟩] :=
    List.append_cancel_right (hbs.symm.trans (of_decide_eq_true hf))
  rw [hbs']
  have hg : granted 100 = 104 := by decide +kernel
  simp [areaBlk, hg]

theorem Serves.whole {m' : Mem} (hs : Serves m' P (poolEnd P S) bs ls []) (hp : Place m P S) :
    bs = [areaBlk P, ⟨P + 3200, (initMemoryPool m S P).2, true⟩] := by
  obtain ⟨-, -, hinit, -⟩ := initMemoryPool_spec hp.ne_null hp.aligned hp.room hp.small hp.new
  have hroom := hp.room
  have hnone (b : Blk) (hb : b ∈ bs) (hf : b.free = false) : b = areaBlk P := by
    by_contra hne
    obtain ⟨o, ho, -⟩ := hs.owners.some b (mem_used.2 ⟨hb, hf⟩) hne
    cases ho
  rw [hinit]
  exact hs.heap.whole (mem_used.1 hs.owners.area).1 hnone (by unfold poolEnd; omega)

/-- Where nothing is allocated any more, the pool is one free block again, as after its initialisation, and
so large that all of it can be asked for. -/
theorem pool_whole (hp : Place m P S) (h : Trans.Run (Client.Step P) (.init m P S) es c) (h0 : c.objs = []) :
    printAllBlocks c.mem P S =
      [areaBlk P, ⟨P + 3200, (initMemoryPool m S P).2, true⟩, ⟨poolEnd P S, 0, false⟩] ∧
    ∀ size ≤ MAX_REQUEST, (mallocEx c.mem size P).2 ≠ NULL ↔ granted size ≤ (initMemoryPool m S P).2 := by
  obtain ⟨bs, ls, hs, hwalk⟩ := (PoolInv.run hp h).blocks hp.room
  rw [h0] at hs
  obtain rfl := hs.whole hp
  refine ⟨hwalk, ?_⟩
  intro size hsize
  rw [ne_eq, hs.heap.malloc_null hsize]
  simp [areaBlk]

theorem pool_whole_sample : ∃ es c, Trans.Run (Client.Step 4096) (.init zeros 4096 4096) es c ∧
    es.map Prod.snd = [7304, 7328, NULL, NULL] ∧ (mallocEx c.mem 870 4096).2 ≠ NULL := by
  obtain ⟨es, c, hrun, hf⟩ := Client.run_any 4096 (.init zeros 4096 4096)
    [.malloc 12, .malloc 8, .free 7304, .free 7328]
    (fun x => decide (x.1.map Prod.snd = [7304, 7328, NULL, NULL] ∧ x.2.objs = [])) (by decide +kernel)
  obtain ⟨hes, hobjs⟩ := of_decide_eq_true hf
  refine ⟨es, c, hrun, hes, ((pool_whole place_zeros hrun hobjs).2 870 (by decide)).2 ?_⟩
  decide +kernel

/-- The words of the place that the pool has been put in. -/
def Inside (P S x : Nat) : Prop := P ≤ x ∧ x + 4 ≤ P + S

theorem inside_end (h4 : 4 ∣ P) (hS : 3244 ≤ S) (hx : 4 ∣ x) (hm : S % 8 < 4) (ho : ¬Inside P S x) :
    x < P ∨ poolEnd P S + 8 ≤ x := by
  unfold Inside at ho
  unfold poolEnd
  omega

/-- The calls never write outside of the place of the pool exactly if its size is less than four bytes above a
multiple of eight. Else the header that ends the area does not lie in the place. -/
theorem pool_inside (hP : P ≠ NULL) (h4 : P &&& PTR_MASK = 0) (hS : 3244 ≤ S) (hS' : S ≤ 2 ^ 30) :
    (∀ m es c, m P ≠ TLSF_SIGNATURE → Trans.Run (Client.Step P) (.init m P S) es c →
      ∀ x, 4 ∣ x → ¬Inside P S x → c.mem x = m x) ↔ S % 8 < 4 := by
  have hdvd : 4 ∣ P := by
    apply Nat.dvd_of_mod_eq_zero
    rw [← h4]
    exact (Nat.and_two_pow_sub_one_eq_mod P 2).symm
  constructor
  · intro hall
    by_contra hm
    have hzero : (⟨fun _ => 0⟩ : Mem) P ≠ TLSF_SIGNATURE := show 0 ≠ TLSF_SIGNATURE by decide
    obtain ⟨ls, hheap, -⟩ := initMemoryPool_spec hP h4 hS hS' hzero
    obtain ⟨-, -, hend, hctl⟩ := hheap.blocks
    have hword := hctl.word
    rw [hend] at hword
    have hsame := hall _ [] _ hzero .nil (Bhdr.size (poolEnd P S)) (by unfold Bhdr.size poolEnd; omega)
      (by unfold Inside Bhdr.size poolEnd; omega)
    cases hword.symm.trans hsame
  · intro hm m es c hnew h x hx ho
    exact (PoolInv.run ⟨hP, h4, hS, hS', hnew⟩ h).outside x (inside_end hdvd hS hx hm ho)

/-- A size that the configurator accepts. -/
theorem pool_inside_not : ¬∀ m es c, m 4096 ≠ TLSF_SIGNATURE →
    Trans.Run (Client.Step 4096) (.init m 4096 4100) es c → ∀ x, 4 ∣ x → ¬Inside 4096 4100 x → c.mem x = m x := by
  intro h
  have hm := (pool_inside (P := 4096) (S := 4100) (by decide) (by decide) (by decide) (by decide)).1 h
  exact absurd hm (by decide)

end

end AspKernel.Tlsf
