import AspKernel.TlsfStore
import AspKernel.Lib.Run

/-! Each request keeps the promise, whatever has been asked for before. -/

namespace AspKernel.Tlsf
set_option autoImplicit true
open WordMem

/-- The memory and the address that a request gets. -/
def serve (P : Nat) (m : Mem) : Req → Mem × Nat
  | .malloc size => mallocEx m size P
  | .calloc nelem elemSize => callocEx m nelem elemSize P
  | .realloc ptr newSize => reallocEx m ptr newSize P
  | .free ptr => (freeEx m ptr P, NULL)
  | .write ptr i v => (m.set (ptr + 4 * i) v, NULL)

/-- The objects after a request that has been answered by `p`, as the clients find them in the memory. -/
def view (m : Mem) (p : Nat) (os : List Obj) : Req → List Obj
  | .malloc size => if p = NULL then os else ⟨p, load m p (words size)⟩ :: os
  | .calloc nelem elemSize => if p = NULL then os else ⟨p, load m p (words (nelem * elemSize))⟩ :: os
  | .realloc ptr newSize =>
    if newSize = 0 then drop os ptr
    else if p = NULL then os else ⟨p, load m p (words newSize)⟩ :: drop os ptr
  | .free ptr => drop os ptr
  | .write ptr i v => os.map fun o => if o.ptr = ptr then ⟨o.ptr, o.data.set i v⟩ else o

/-- The memory, and the objects of the clients. -/
structure Client where
  mem : Mem
  objs : List Obj

/-- A request and its answer. -/
structure Client.Step (P : Nat) (c : Client) (e : Req × Nat) (c' : Client) : Prop where
  legal : e.1.Legal c.objs
  answer : serve P c.mem e.1 = (c'.mem, e.2)
  view : c'.objs = Tlsf.view c'.mem e.2 c.objs e.1

/-- Words that neither the calls nor the clients write to: the area's own, and all outside of the pool. -/
def Fixed (P e x : Nat) : Prop := x < P + 8 ∨ e + 8 ≤ x ∨ P + 3192 ≤ x ∧ x < P + 3200

section
variable {m m' : Mem} {P e s x p n size newSize : Nat} {L R bs bs' : List Blk} {ls ls' : Lists} {b c : Blk}
  {o o' : Obj} {os os' : List Obj} {r : Req}

theorem Serves.kept_fixed (h : Serves m P e bs ls os) (hx : Fixed P e x) : Kept P e bs x := by
  obtain ⟨ha, -⟩ := mem_used.1 h.owners.area
  rcases hx with hx | hx | ⟨h1, h2⟩
  · exact h.heap.kept_outside (.inl hx)
  · exact h.heap.kept_outside (.inr hx)
  · exact h.heap.kept_used ha rfl h1 h2

/-- The block of an object holds no such word. -/
theorem Serves.off_fixed (h : Serves m P e bs ls os) (hb : b ∈ bs) (hne : b ≠ areaBlk P) (hx : Fixed P e x) :
    x < b.addr ∨ b.addr + 8 + b.size ≤ x := by
  have hm := h.heap.blocks.mem hb
  have hge := h.above hb hne
  unfold Fixed at hx
  omega

theorem drop_cons_self (h : ((o :: os).map Obj.ptr).Nodup) : drop (o :: os) o.ptr = os := by
  have hn := (List.nodup_cons.1 h).1
  unfold drop
  rw [List.filter_cons_of_neg (by simp)]
  apply List.filter_eq_self.2
  intro o' ho'
  apply decide_eq_true
  intro he
  exact hn (he ▸ List.mem_map_of_mem ho')

theorem drop_cons_ne (h : o'.ptr ≠ p) : drop (o' :: os) p = o' :: drop os p := List.filter_cons_of_pos (by simpa using h)

theorem Serves.room_head (h : Serves m P e bs ls (o :: os)) : Room P e os o := by
  have hr := h.room (List.mem_cons_self ..)
  rwa [drop_cons_self h.owners.nodup] at hr

/-- A request is answered by a new object as large as asked for, or nothing changes. -/
theorem Serves.malloc (h : Serves m P e bs ls os) (hs : size ≤ MAX_REQUEST) :
    mallocEx m size P = (m, NULL) ∨ ∃ m' p bs' ls', mallocEx m size P = (m', p) ∧ p ≠ NULL ∧
      (∀ n, 4 * n ≤ granted size → Serves m' P e bs' ls' (⟨p, load m' p n⟩ :: os)) ∧
      ∀ x, Fixed P e x → m' x = m x := by
  rcases mallocEx_spec h.heap hs with ⟨hnull, -⟩ | ⟨L, b, R, m', s', bs', ls', rfl, hf, hm', hg, -, h', hu, hk⟩
  · exact .inl hnull
  · right
    refine ⟨m', b.addr + 8, bs', ls', hm', by unfold NULL; omega, ?_, ?_⟩
    · intro n hn
      exact h.add hf h' hu (hn.trans hg) hk
    · intro x hx
      exact hk x (h.kept_fixed hx)

theorem Serves.free (h : Serves m P e bs ls os) (ho : o ∈ os) : ∃ bs' ls',
    Serves (freeEx m o.ptr P) P e bs' ls' (drop os o.ptr) ∧ ∀ x, Fixed P e x → freeEx m o.ptr P x = m x := by
  obtain ⟨L, b, R, rfl, hf, hne, hof⟩ := h.block ho
  obtain ⟨bs', ls', h', hu, hk⟩ := freeEx_spec h.heap hf
  have hbm : b ∈ L ++ b :: R := List.mem_append_right _ (List.mem_cons_self ..)
  have hptr : freeEx m o.ptr P = freeEx m (b.addr + 8) P := by rw [hof.ptr]
  rw [hptr]
  refine ⟨bs', ls', h.remove hf hne hof.ptr h' hu hk, ?_⟩
  intro x hx
  exact hk x (h.kept_fixed hx).tail (h.off_fixed hbm hne hx)

/-- Writes to the words of an object. -/
theorem Serves.rewrite (h : Serves m P e bs ls os) (ho : o ∈ os) (m' : Mem)
    (hm : ∀ x, (x < o.ptr ∨ o.ptr + 4 * o.data.length ≤ x) → m' x = m x) :
    Serves m' P e bs ls
      (os.map fun o' => if o'.ptr = o.ptr then ⟨o'.ptr, load m' o'.ptr o'.data.length⟩ else o') := by
  obtain ⟨L, b, R, rfl, hf, hne, hof⟩ := h.block ho
  obtain ⟨h1, h2⟩ := id hof
  have hbuf (x : Nat) (hx : x < b.addr + 8 ∨ b.addr + 8 + b.size ≤ x) : m' x = m x := hm x (by omega)
  have hclose := ((h.heap.openUsed hf).buffer hbuf).closeUsed
  have hb : (⟨b.addr, b.size, false⟩ : Blk) = b := by
    rw [← hf]
  rw [hb] at hclose
  refine ⟨hclose, h.owners.rewrite ?_ ?_, ?_⟩
  · intro o'
    split
    · rfl
    · rfl
  · intro o'
    split
    · exact load_length ..
    · rfl
  · intro o'' ho''
    obtain ⟨o', ho', rfl⟩ := List.mem_map.1 ho''
    by_cases he : o'.ptr = o.ptr
    · rw [if_pos he]
      change load m' o'.ptr (load m' o'.ptr o'.data.length).length = load m' o'.ptr o'.data.length
      rw [load_length]
    · rw [if_neg he]
      apply h.others hf hof.ptr ?_ o' (mem_drop.2 ⟨ho', he⟩)
      intro x _ hx
      exact hm x (by omega)

/-- Writes to the words of the first object. -/
theorem Serves.fill (h : Serves m P e bs ls (o :: os)) (m' : Mem)
    (hm : ∀ x, (x < o.ptr ∨ o.ptr + 4 * o.data.length ≤ x) → m' x = m x) :
    Serves m' P e bs ls (⟨o.ptr, load m' o.ptr o.data.length⟩ :: os) := by
  have h' := h.rewrite (List.mem_cons_self ..) m' hm
  rw [List.map_cons, if_pos rfl] at h'
  have hsame : (os.map fun o' => if o'.ptr = o.ptr then ⟨o'.ptr, load m' o'.ptr o'.data.length⟩ else o') = os := by
    apply (List.map_congr_left ?_).trans (List.map_id os)
    intro o' ho'
    apply if_neg
    intro he
    exact (List.nodup_cons.1 h.owners.nodup).1 (he ▸ List.mem_map_of_mem ho')
  rwa [hsame] at h'

/-- An object may be taken for a smaller one. -/
theorem Serves.shrink (h : Serves m P e bs ls (o :: os)) (hn : n ≤ o.data.length) :
    Serves m P e bs ls (⟨o.ptr, load m o.ptr n⟩ :: os) := by
  refine ⟨h.heap, ⟨h.owners.area, ?_, ?_, h.owners.nodup⟩, ?_⟩
  · intro b hb hne
    obtain ⟨o', ho', hof⟩ := h.owners.some b hb hne
    rcases List.mem_cons.1 ho' with rfl | ho'
    · refine ⟨_, List.mem_cons_self .., hof.ptr, ?_⟩
      have hfit := hof.fits
      change 4 * (load m o'.ptr n).length ≤ b.size
      rw [load_length]
      omega
    · exact ⟨o', List.mem_cons_of_mem _ ho', hof⟩
  · intro o' ho'
    rcases List.mem_cons.1 ho' with rfl | ho'
    · obtain ⟨b, hb, hne, hof⟩ := h.owners.each o (List.mem_cons_self ..)
      refine ⟨b, hb, hne, hof.ptr, ?_⟩
      have hfit := hof.fits
      change 4 * (load m o.ptr n).length ≤ b.size
      rw [load_length]
      omega
    · exact h.owners.each o' (List.mem_cons_of_mem _ ho')
  · intro o' ho'
    rcases List.mem_cons.1 ho' with rfl | ho'
    · change load m o.ptr (load m o.ptr n).length = load m o.ptr n
      rw [load_length]
    · exact h.data o' (List.mem_cons_of_mem _ ho')

theorem four_words (n : Nat) : n ≤ 4 * words n ∧ 4 * words n < n + 4 := by
  unfold words
  omega

theorem words_granted (hs : size ≤ MAX_REQUEST) : 4 * words size ≤ granted size := by
  obtain ⟨h1, -, h3⟩ := granted_bounds hs
  have h4 := four_words size
  omega

theorem words_blockSize (hs : size ≤ MAX_REQUEST) : 4 * words size ≤ blockSize size := by
  obtain ⟨h1, -, h3, -⟩ := blockSize_bounds hs
  have h4 := four_words size
  omega

theorem byte_zero (h : i < n) (hd : ∀ j < words n, d[j]? = some ((m.zero p n) (p + 4 * j))) : byte d i = 0 := by
  have hj : i / 4 < words n := by
    unfold words
    omega
  unfold byte
  rw [List.getD_eq_getElem?_getD, hd _ hj, Option.getD_some]
  by_cases hw : p + 4 * (i / 4) + 4 ≤ p + n
  · rw [Mem.zero_of_lt (by omega) hw, Nat.zero_div, Nat.zero_mod]
  · obtain ⟨k, hk⟩ : ∃ k, 8 * (p + n - (p + 4 * (i / 4))) = 8 * (i % 4) + 8 + k := ⟨_, (Nat.add_sub_of_le (by omega)).symm⟩
    have hz : m.zero p n (p + 4 * (i / 4)) = m (p + 4 * (i / 4)) / 2 ^ (8 * (i % 4) + 8 + k) * 2 ^ (8 * (i % 4) + 8 + k) := by
      rw [← Nat.shiftRight_eq_div_pow, ← Nat.shiftLeft_eq, ← hk]
      exact (if_pos (by omega)).trans (if_neg hw)
    rw [hz, Nat.add_assoc, Nat.pow_add 2 (8 * (i % 4)), Nat.mul_left_comm, Nat.mul_div_cancel_left _ (Nat.two_pow_pos _),
      Nat.pow_add, Nat.mul_left_comm]
    exact Nat.mul_mod_right ..

theorem Serves.calloc (h : Serves m P e bs ls os) (hs : nelem * elemSize ≤ MAX_REQUEST) :
    callocEx m nelem elemSize P = (m, NULL) ∨ ∃ m' p bs' ls', callocEx m nelem elemSize P = (m', p) ∧ p ≠ NULL ∧
      Serves m' P e bs' ls' (⟨p, load m' p (words (nelem * elemSize))⟩ :: os) ∧
      (∀ i < nelem * elemSize, byte (load m' p (words (nelem * elemSize))) i = 0) ∧ ∀ x, Fixed P e x → m' x = m x := by
  have hmod : nelem * elemSize % 2 ^ 32 = nelem * elemSize := Nat.mod_eq_of_lt (by
    unfold MAX_REQUEST at hs
    omega)
  have h4 := four_words (nelem * elemSize)
  unfold callocEx
  by_cases h0 : nelem = 0 ∨ elemSize = 0
  · exact .inl (if_pos h0)
  · rw [if_neg h0, hmod]
    rcases h.malloc hs with hnull | ⟨m', p, bs', ls', hm', hp, h', hk⟩
    · left
      rw [hnull]
      exact if_pos rfl
    · right
      have h1 := h' (words (nelem * elemSize)) (words_granted hs)
      have hroom := h1.room_head
      have h2 := h1.fill (m'.zero p (nelem * elemSize)) (by
        intro x hx
        change x < p ∨ p + 4 * (load m' p (words (nelem * elemSize))).length ≤ x at hx
        rw [load_length] at hx
        exact Mem.zero_of_ne (by omega))
      simp only [load_length] at h2
      rw [hm']
      refine ⟨m'.zero p (nelem * elemSize), p, bs', ls', if_neg hp, hp, h2, ?_, ?_⟩
      · intro i hi
        apply byte_zero hi
        intro j hj
        rw [load_getElem?, if_pos hj]
      · intro x hx
        have habove := hroom.above
        have hbelow := hroom.below
        change P + 3208 ≤ p at habove
        change p + 4 * (load m' p (words (nelem * elemSize))).length ≤ e at hbelow
        rw [load_length] at hbelow
        unfold Fixed at hx
        rw [Mem.zero_of_ne (by omega)]
        exact hk x hx

/-- The words of an object in the memory. -/
theorem Serves.word (h : Serves m P e bs ls os) (ho : o ∈ os) (hi : i < o.data.length) :
    o.data[i]? = some (m (o.ptr + 4 * i)) := by
  rw [← h.data o ho, load_getElem?, if_pos hi]

/-- The data of an object moves to a new one. -/
theorem Serves.move (h : Serves m P e bs ls os) (ho : o ∈ os) (hz : 8 ∣ s) (hs : s ≤ MAX_REQUEST) (hb : b.addr + 8 = o.ptr) :
    reallocMove m o.ptr b.addr s P = (m, NULL) ∨ ∃ m' p bs' ls', reallocMove m o.ptr b.addr s P = (m', p) ∧ p ≠ NULL ∧
      (∀ n, 4 * n ≤ s → Serves m' P e bs' ls' (⟨p, load m' p n⟩ :: drop os o.ptr)) ∧
      (∀ i < o.data.length, 4 * i + 4 ≤ s → m' (p + 4 * i) = m (o.ptr + 4 * i)) ∧ ∀ x, Fixed P e x → m' x = m x := by
  unfold reallocMove
  rcases h.malloc hs with hnull | ⟨m₁, p, bs₁, ls₁, hm₁, hp, h₁, hk₁⟩
  · left
    rw [hnull]
    exact if_pos rfl
  · right
    have hs4 : 4 * (s / 4) = s := by omega
    have hg := granted_bounds hs
    have h1 := h₁ (s / 4) (by omega)
    obtain ⟨L, c, R, hbs, -, -, hof⟩ := h1.block (List.mem_cons_of_mem _ ho)
    have hsize : m₁ (Bhdr.size b.addr) &&& BLOCK_SIZE = c.size := by
      have hbc : b.addr = c.addr := by
        have hptr := hof.ptr
        omega
      rw [hbc]
      apply h1.heap.size_eq
      rw [hbs]
      exact List.mem_append_right _ (List.mem_cons_self ..)
    obtain ⟨k, hk⟩ : ∃ k, (if s < c.size then s else c.size) = k := ⟨_, rfl⟩
    have hks : k ≤ s ∧ k ≤ c.size ∧ (k = s ∨ k = c.size) := by
      rw [← hk]
      split <;> omega
    have hfit := hof.fits
    have hroom := h1.room_head
    have h2 := h1.fill (m₁.copy p o.ptr k) (by
      intro x hx
      change x < p ∨ p + 4 * (load m₁ p (s / 4)).length ≤ x at hx
      rw [load_length] at hx
      exact Mem.copy_of_ne (by omega))
    simp only [load_length] at h2
    obtain ⟨bs₃, ls₃, h3, hk₃⟩ := h2.free (List.mem_cons_of_mem _ ho)
    have hne : p ≠ o.ptr := by
      intro he
      have hpm : o.ptr ∈ os.map Obj.ptr := List.mem_map_of_mem ho
      rw [← he] at hpm
      exact (List.nodup_cons.1 h2.owners.nodup).1 hpm
    rw [drop_cons_ne hne] at h3
    rw [hm₁]
    simp only [if_neg hp, hsize, hk]
    have hword (i : Nat) (hi : i < s / 4) : freeEx (m₁.copy p o.ptr k) o.ptr P (p + 4 * i) = m₁.copy p o.ptr k (p + 4 * i) := by
      have hw := h3.word (List.mem_cons_self ..) (i := i) (by rwa [load_length])
      rw [load_getElem?, if_pos hi] at hw
      exact (Option.some.inj hw).symm
    refine ⟨_, p, bs₃, ls₃, rfl, hp, ?_, ?_, ?_⟩
    · intro n hn
      exact h3.shrink (by rw [load_length]; omega)
    · intro i hi his
      rw [hword i (by omega), Mem.copy_of_lt (by omega)]
      have h4 := h.word ho hi
      have h5 := h1.word (List.mem_cons_of_mem _ ho) hi
      exact Option.some.inj (h5.symm.trans h4)
    · intro x hx
      have habove := hroom.above
      have hbelow := hroom.below
      change P + 3208 ≤ p at habove
      change p + 4 * (load m₁ p (s / 4)).length ≤ e at hbelow
      rw [load_length] at hbelow
      rw [hk₃ x hx]
      unfold Fixed at hx
      rw [Mem.copy_of_ne (by omega)]
      exact hk₁ x hx

/-- An object is resized, in its place or in another one, or nothing changes. -/
theorem Serves.realloc (h : Serves m P e bs ls os) (ho : o ∈ os) (hn : newSize ≠ 0) (hs : newSize ≤ MAX_REQUEST) :
    reallocEx m o.ptr newSize P = (m, NULL) ∨ ∃ m' p bs' ls', reallocEx m o.ptr newSize P = (m', p) ∧ p ≠ NULL ∧
      Serves m' P e bs' ls' (⟨p, load m' p (words newSize)⟩ :: drop os o.ptr) ∧
      (∀ i < min o.data.length (words newSize), m' (p + 4 * i) = m (o.ptr + 4 * i)) ∧ ∀ x, Fixed P e x → m' x = m x := by
  obtain ⟨L, b, R, rfl, hf, hne, hof⟩ := h.block ho
  obtain ⟨h1, h2⟩ := id hof
  have hbm : b ∈ L ++ b :: R := List.mem_append_right _ (List.mem_cons_self ..)
  have hwb := words_blockSize hs
  obtain ⟨hz, -, -, hzle⟩ := blockSize_bounds hs
  have hptr : reallocEx m o.ptr newSize P = reallocEx m (b.addr + 8) newSize P := by rw [h1]
  rw [hptr]
  rcases reallocEx_spec h.heap hf hn hs with ⟨m', s', bs', ls', hm', hzs, h', hu, hk⟩ | ⟨-, hmove⟩
  · right
    refine ⟨m', o.ptr, bs', ls', by rw [hm', h1], by rw [h1]; unfold NULL; omega, ?_, ?_, ?_⟩
    · apply h.change hf hne h1 h' hu (by omega)
      intro x hx hxb
      exact hk x hx (by unfold Held; omega)
    · intro i hi
      have hkept := h.heap.kept_used hbm hf (x := o.ptr + 4 * i) (by omega) (by omega)
      exact hk _ hkept.tail (by unfold Held; omega)
    · intro x hx
      have hoff := h.off_fixed hbm hne hx
      exact hk x (h.kept_fixed hx).tail (by unfold Held; omega)
  · rw [hmove, ← h1]
    rcases h.move ho hz hzle h1.symm with hnull | ⟨m', p, bs', ls', hm', hp, h', hd, hk⟩
    · exact .inl hnull
    · right
      refine ⟨m', p, bs', ls', hm', hp, h' _ hwb, ?_, hk⟩
      intro i hi
      exact hd i (by omega) (by omega)

theorem Serves.ne_null (h : Serves m P e bs ls os) (ho : o ∈ os) : o.ptr ≠ NULL := by
  have habove := (h.room ho).above
  unfold NULL
  omega

theorem Serves.drop_null (h : Serves m P e bs ls os) : drop os NULL = os := by
  apply List.filter_eq_self.2
  intro o ho
  exact decide_eq_true (h.ne_null ho)

/-- What a request leaves of the pool. -/
structure Served (P e : Nat) (m : Mem) (os : List Obj) (r : Req) (p : Nat) (m' : Mem) (os' : List Obj) : Prop where
  promise : Promise P e os r p os'
  serves : ∃ bs ls, Serves m' P e bs ls os'
  fixed : ∀ x, Fixed P e x → m' x = m x

theorem Serves.full (h : Serves m P e bs ls os) (hr : r.Asks) : Served P e m os r NULL m os :=
  ⟨.full hr, ⟨bs, ls, h⟩, fun _ _ => rfl⟩

theorem Serves.serve_malloc (h : Serves m P e bs ls os) (hs : size ≤ MAX_REQUEST) (hm : mallocEx m size P = (m', p)) :
    Served P e m os (.malloc size) p m' (view m' p os (.malloc size)) := by
  rcases h.malloc hs with hnull | ⟨m₁, p₁, bs', ls', hm₁, hp, h', hk⟩
  · obtain ⟨rfl, rfl⟩ := Prod.mk.inj (hnull.symm.trans hm)
    exact h.full trivial
  · obtain ⟨rfl, rfl⟩ := Prod.mk.inj (hm₁.symm.trans hm)
    have h1 := h' _ (words_granted hs)
    rw [show view m₁ p₁ os (.malloc size) = _ from if_neg hp]
    exact ⟨.malloc h1.room_head (load_length ..), ⟨bs', ls', h1⟩, hk⟩

theorem Serves.serve_calloc (h : Serves m P e bs ls os) (hs : nelem * elemSize ≤ MAX_REQUEST)
    (hm : callocEx m nelem elemSize P = (m', p)) :
    Served P e m os (.calloc nelem elemSize) p m' (view m' p os (.calloc nelem elemSize)) := by
  rcases h.calloc hs with hnull | ⟨m₁, p₁, bs', ls', hm₁, hp, h1, h0, hk⟩
  · obtain ⟨rfl, rfl⟩ := Prod.mk.inj (hnull.symm.trans hm)
    exact h.full trivial
  · obtain ⟨rfl, rfl⟩ := Prod.mk.inj (hm₁.symm.trans hm)
    rw [show view m₁ p₁ os (.calloc nelem elemSize) = _ from if_neg hp]
    exact ⟨.calloc h1.room_head (load_length ..) h0, ⟨bs', ls', h1⟩, hk⟩

theorem Serves.serve_free (h : Serves m P e bs ls os) (hp : p = NULL ∨ ∃ o ∈ os, o.ptr = p) :
    Served P e m os (.free p) NULL (freeEx m p P) (drop os p) := by
  rcases hp with rfl | ⟨o, ho, rfl⟩
  · have hnull : freeEx m NULL P = m := if_pos rfl
    rw [hnull]
    refine ⟨.free, ⟨bs, ls, ?_⟩, fun _ _ => rfl⟩
    rw [h.drop_null]
    exact h
  · obtain ⟨bs', ls', h', hk⟩ := h.free ho
    exact ⟨.free, ⟨bs', ls', h'⟩, hk⟩

theorem Serves.serve_realloc (h : Serves m P e bs ls os) {ptr : Nat} (hp : ptr = NULL ∨ ∃ o ∈ os, o.ptr = ptr)
    (hs : newSize ≤ MAX_REQUEST) (hm : reallocEx m ptr newSize P = (m', p)) :
    Served P e m os (.realloc ptr newSize) p m' (view m' p os (.realloc ptr newSize)) := by
  rcases hp with rfl | ⟨o, ho, rfl⟩
  · -- as for a new object
    unfold reallocEx at hm
    rw [if_pos rfl] at hm
    by_cases hn : newSize = 0
    · rw [if_neg (not_not.2 hn)] at hm
      obtain ⟨rfl, rfl⟩ := Prod.mk.inj hm
      rw [show view m NULL os (.realloc NULL newSize) = drop os NULL from if_pos hn, h.drop_null]
      exact h.full (.inl rfl)
    · rw [if_pos hn] at hm
      rw [show view m' p os (.realloc NULL newSize) = _ from if_neg hn, h.drop_null]
      rcases h.malloc hs with hnull | ⟨m₁, p₁, bs', ls', hm₁, hp, h', hk⟩
      · obtain ⟨rfl, rfl⟩ := Prod.mk.inj (hnull.symm.trans hm)
        exact h.full (.inl rfl)
      · obtain ⟨rfl, rfl⟩ := Prod.mk.inj (hm₁.symm.trans hm)
        have h1 := h' _ (words_granted hs)
        rw [if_neg hp]
        exact ⟨.first h1.room_head (load_length ..), ⟨bs', ls', h1⟩, hk⟩
  · have hne := h.ne_null ho
    by_cases hn : newSize = 0
    · -- as for an object that is given back
      subst hn
      unfold reallocEx at hm
      rw [if_neg hne, if_pos rfl] at hm
      obtain ⟨rfl, rfl⟩ := Prod.mk.inj hm
      obtain ⟨bs', ls', h', hk⟩ := h.free ho
      exact ⟨.release, ⟨bs', ls', h'⟩, hk⟩
    · rw [show view m' p os (.realloc o.ptr newSize) = _ from if_neg hn]
      rcases h.realloc ho hn hs with hnull | ⟨m₁, p₁, bs', ls', hm₁, hp, h1, hd, hk⟩
      · obtain ⟨rfl, rfl⟩ := Prod.mk.inj (hnull.symm.trans hm)
        exact h.full (.inr hn)
      · obtain ⟨rfl, rfl⟩ := Prod.mk.inj (hm₁.symm.trans hm)
        rw [if_neg hp]
        refine ⟨.resize ho h1.room_head (load_length ..) ?_, ⟨bs', ls', h1⟩, hk⟩
        intro i hi
        change (load m₁ p₁ (words newSize))[i]? = o.data[i]?
        rw [load_getElem?, if_pos (by omega), h.word ho (by omega), hd i hi]

theorem Serves.serve_write (h : Serves m P e bs ls os) (ho : o ∈ os) (hi : i < o.data.length) (v : Nat) :
    Served P e m os (.write o.ptr i v) NULL (m.set (o.ptr + 4 * i) v)
      (os.map fun o' => if o'.ptr = o.ptr then ⟨o'.ptr, o'.data.set i v⟩ else o') := by
  have h' := h.rewrite ho (m.set (o.ptr + 4 * i) v) fun x hx => Mem.set_ne (by omega)
  have hsame : (os.map fun o' => if o'.ptr = o.ptr then
      ⟨o'.ptr, load (m.set (o.ptr + 4 * i) v) o'.ptr o'.data.length⟩ else o') =
      os.map fun o' => if o'.ptr = o.ptr then ⟨o'.ptr, o'.data.set i v⟩ else o' := by
    apply List.map_congr_left
    intro o' ho'
    by_cases he : o'.ptr = o.ptr
    · rw [if_pos he, if_pos he]
      congr 1
      apply List.ext_getElem?
      intro j
      rw [load_getElem?, List.getElem?_set]
      by_cases hj : j < o'.data.length
      · rw [if_pos hj]
        by_cases hij : i = j
        · rw [if_pos hij, if_pos (hij ▸ hj), he, hij, Mem.set_self]
        · rw [if_neg hij, h.word ho' hj, Mem.set_ne (by omega)]
      · have hij : i ≠ j := by
          obtain rfl := Obj.eq_of_ptr h ho' ho he
          omega
        rw [if_neg hj, if_neg hij, List.getElem?_eq_none (Nat.not_lt.1 hj)]
    · rw [if_neg he, if_neg he]
  rw [hsame] at h'
  refine ⟨.write ho hi, ⟨bs, ls, h'⟩, ?_⟩
  intro x hx
  have hroom := h.room ho
  have habove := hroom.above
  have hbelow := hroom.below
  unfold Fixed at hx
  exact Mem.set_ne (by omega)

/-- Every request keeps its promise. -/
theorem Serves.serve (h : Serves m P e bs ls os) (hr : r.Legal os) (hm : serve P m r = (m', p)) :
    Served P e m os r p m' (view m' p os r) := by
  cases r with
  | malloc size => exact h.serve_malloc hr hm
  | calloc nelem elemSize => exact h.serve_calloc hr hm
  | realloc ptr newSize => exact h.serve_realloc hr.1 hr.2 hm
  | free ptr =>
    obtain ⟨rfl, rfl⟩ := Prod.mk.inj hm
    exact h.serve_free hr
  | write ptr i v =>
    obtain ⟨o, ho, rfl, hi⟩ := hr
    obtain ⟨rfl, rfl⟩ := Prod.mk.inj hm
    exact h.serve_write ho hi v

end

end AspKernel.Tlsf
