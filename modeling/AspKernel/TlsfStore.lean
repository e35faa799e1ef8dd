import AspKernel.TlsfOwn

/-! What the pool is for: objects that keep what has been written to them. -/

namespace AspKernel.Tlsf
set_option autoImplicit true
open WordMem

/-- The words that hold `n` bytes. -/
def words (n : Nat) : Nat := (n + 3) / 4

/-- A byte of a list of words. -/
def byte (d : List Nat) (i : Nat) : Nat := d.getD (i / 4) 0 / 2 ^ (8 * (i % 4)) % 2 ^ 8

/-- What clients ask for; `write` is an access to a word of their own. -/
inductive Req where
  | malloc (size : Nat)
  | calloc (nelem elemSize : Nat)
  | realloc (ptr newSize : Nat)
  | free (ptr : Nat)
  | write (ptr i v : Nat)
  deriving DecidableEq, Repr

/-- Requests for memory. -/
def Req.Asks : Req → Prop
  | .malloc _ => True
  | .calloc _ _ => True
  | .realloc ptr newSize => ptr = NULL ∨ newSize ≠ 0
  | _ => False

/-- A place for an object beside others. -/
structure Room (P e : Nat) (os : List Obj) (o : Obj) : Prop where
  above : P + 3208 ≤ o.ptr
  below : o.ptr + 4 * o.data.length ≤ e
  aligned : 8 ∣ o.ptr - P
  apart : ∀ o' ∈ os, o.ptr + 4 * o.data.length + 8 ≤ o'.ptr ∨ o'.ptr + 4 * o'.data.length + 8 ≤ o.ptr

/-- What a request does to the objects, and the address that it answers. -/
inductive Promise (P e : Nat) (os : List Obj) : Req → Nat → List Obj → Prop
  | full (h : r.Asks) : Promise P e os r NULL os
  | malloc (h : Room P e os o) (hn : o.data.length = words size) : Promise P e os (.malloc size) o.ptr (o :: os)
  | calloc (h : Room P e os o) (hn : o.data.length = words (nelem * elemSize))
    (h0 : ∀ i < nelem * elemSize, byte o.data i = 0) : Promise P e os (.calloc nelem elemSize) o.ptr (o :: os)
  | first (h : Room P e os o) (hn : o.data.length = words newSize) :
    Promise P e os (.realloc NULL newSize) o.ptr (o :: os)
  | resize (ho : o ∈ os) (h : Room P e (drop os o.ptr) o') (hn : o'.data.length = words newSize)
    (hk : ∀ i < min o.data.length (words newSize), o'.data[i]? = o.data[i]?) :
    Promise P e os (.realloc o.ptr newSize) o'.ptr (o' :: drop os o.ptr)
  | release : Promise P e os (.realloc p 0) NULL (drop os p)
  | free : Promise P e os (.free p) NULL (drop os p)
  | write (ho : o ∈ os) (hi : i < o.data.length) : Promise P e os (.write o.ptr i v) NULL
    (os.map fun o' => if o'.ptr = o.ptr then ⟨o'.ptr, o'.data.set i v⟩ else o')

/-- The largest request that the tables of the lists are made for. -/
def MAX_REQUEST : Nat := 2 ^ 30 - 2 ^ 24

/-- What the clients may ask for. -/
def Req.Legal (os : List Obj) : Req → Prop
  | .malloc size => size ≤ MAX_REQUEST
  | .calloc nelem elemSize => nelem * elemSize ≤ MAX_REQUEST
  | .realloc ptr newSize => (ptr = NULL ∨ ∃ o ∈ os, o.ptr = ptr) ∧ newSize ≤ MAX_REQUEST
  | .free ptr => ptr = NULL ∨ ∃ o ∈ os, o.ptr = ptr
  | .write ptr i _ => ∃ o ∈ os, o.ptr = ptr ∧ i < o.data.length

/-- The memory holds the objects. -/
structure Serves (m : Mem) (P e : Nat) (bs : List Blk) (ls : Lists) (os : List Obj) : Prop where
  heap : Heap m P e bs ls
  owners : Owners P (used bs) os
  data : ∀ o ∈ os, load m o.ptr o.data.length = o.data

section
variable {m m' : Mem} {P e s x p n size : Nat} {L R bs bs' : List Blk} {ls ls' : Lists} {b c : Blk} {o o' : Obj}
  {os os' : List Obj}

theorem Serves.start (h : Heap m P e bs ls) (hu : used bs = [areaBlk P]) : Serves m P e bs ls [] := by
  refine ⟨h, ⟨?_, ?_, by simp, List.nodup_nil⟩, by simp⟩
  · rw [hu]
    exact List.mem_singleton_self _
  · intro b hb hne
    rw [hu] at hb
    exact absurd (List.mem_singleton.1 hb) hne

/-- The blocks that are used lie behind the block of the area. -/
theorem Serves.above (h : Serves m P e bs ls os) (hb : b ∈ bs) (hne : b ≠ areaBlk P) : P + 3200 ≤ b.addr := by
  obtain ⟨ha, -⟩ := mem_used.1 h.owners.area
  have hm := h.heap.blocks.mem hb
  rcases h.heap.blocks.toPrefix.spaced hb ha with hba | hba | hba
  · exact absurd hba hne
  · change b.addr + 8 + b.size ≤ P + 3184 at hba
    omega
  · exact hba

/-- The block of an object. -/
theorem Serves.block (h : Serves m P e bs ls os) (ho : o ∈ os) :
    ∃ L b R, bs = L ++ b :: R ∧ b.free = false ∧ b ≠ areaBlk P ∧ Of o b := by
  obtain ⟨b, hb, hne, hof⟩ := h.owners.each o ho
  obtain ⟨hm, hf⟩ := mem_used.1 hb
  obtain ⟨L, R, rfl⟩ := List.append_of_mem hm
  exact ⟨L, b, R, rfl, hf, hne, hof⟩

theorem Obj.eq_of_ptr (h : Serves m P e bs ls os) (ho : o ∈ os) (ho' : o' ∈ os) (he : o.ptr = o'.ptr) : o = o' :=
  Obj.ext_of_nodup h.owners.nodup ho ho' he

/-- An object stands beside the others. -/
theorem Serves.room (h : Serves m P e bs ls os) (ho : o ∈ os) : Room P e (drop os o.ptr) o := by
  obtain ⟨L, b, R, rfl, -, hne, hof⟩ := h.block ho
  have hbm : b ∈ L ++ b :: R := List.mem_append_right _ (List.mem_cons_self ..)
  have hge := h.above hbm hne
  have hm := h.heap.blocks.mem hbm
  have hal := h.heap.blocks.toPrefix.aligned hbm
  obtain ⟨h1, h2⟩ := hof
  refine ⟨by omega, by omega, by omega, ?_⟩
  intro o' ho'
  obtain ⟨ho', hp⟩ := mem_drop.1 ho'
  obtain ⟨c, hc, hca, h3, h4⟩ := h.owners.each o' ho'
  rcases h.heap.blocks.toPrefix.spaced hbm (mem_used.1 hc).1 with rfl | hbc | hbc
  · exact absurd (h3.trans h1.symm) hp
  · exact .inl (by omega)
  · exact .inr (by omega)

/-- What the objects hold stays where their words stay. -/
theorem Serves.keep (h : Serves m P e bs ls os) (hk : ∀ b ∈ bs, b.free = false → b ≠ areaBlk P → (∃ o ∈ os', Of o b) →
    ∀ x, b.addr + 8 ≤ x → x < b.addr + 8 + b.size → m' x = m x) (ho : ∀ o ∈ os', o ∈ os) :
    ∀ o ∈ os', load m' o.ptr o.data.length = o.data := by
  intro o hos
  obtain ⟨L, b, R, rfl, hf, hne, hof⟩ := h.block (ho o hos)
  obtain ⟨h1, h2⟩ := id hof
  rw [← h.data o (ho o hos), load_length]
  apply load_congr
  intro i hi
  exact hk b (List.mem_append_right _ (List.mem_cons_self ..)) hf hne ⟨o, hos, hof⟩ _ (by omega) (by omega)

/-- A free block, or a part of it, becomes an object. -/
theorem Serves.add (h : Serves m P e (L ++ b :: R) ls os) (hf : b.free = true) (h' : Heap m' P e bs' ls')
    (hu : used bs' = used L ++ ⟨b.addr, s, false⟩ :: used R) (hs : 4 * n ≤ s)
    (hk : ∀ x, Kept P e (L ++ b :: R) x → m' x = m x) :
    Serves m' P e bs' ls' (⟨b.addr + 8, load m' (b.addr + 8) n⟩ :: os) := by
  have hused : used (L ++ b :: R) = used L ++ used R := by
    rw [used_append, used_cons_free hf]
  have hbm : b ∈ L ++ b :: R := List.mem_append_right _ (List.mem_cons_self ..)
  have hown := h.owners
  rw [hused] at hown
  refine ⟨h', ?_, ?_⟩
  · rw [hu]
    apply hown.add
    · intro c hc he
      rw [← hused] at hc
      obtain ⟨hcm, hcf⟩ := mem_used.1 hc
      have hcb : c = b := h.heap.addr_inj hcm hbm he
      rw [hcb, hf] at hcf
      cases hcf
    · refine ⟨rfl, ?_⟩
      change 4 * (load m' (b.addr + 8) n).length ≤ s
      rw [load_length]
      exact hs
  · intro o ho
    rcases List.mem_cons.1 ho with rfl | ho
    · change load m' (b.addr + 8) (load m' (b.addr + 8) n).length = load m' (b.addr + 8) n
      rw [load_length]
    · have hself : ∀ o' ∈ os, o' ∈ os := fun _ ho' => ho'
      apply h.keep ?_ hself o ho
      intro c hc hcf _ _ x h1 h2
      exact hk x (h.heap.kept_used hc hcf h1 h2)

/-- The words of the other objects, when the block of one is given back or changed. -/
theorem Serves.others (h : Serves m P e (L ++ b :: R) ls os) (hf : b.free = false) (ho : o.ptr = b.addr + 8)
    (hk : ∀ x, Kept P e (L ++ R) x → (x < b.addr ∨ b.addr + 8 + b.size ≤ x) → m' x = m x) :
    ∀ o' ∈ drop os o.ptr, load m' o'.ptr o'.data.length = o'.data := by
  apply h.keep
  · rintro c hc hcf - ⟨o', ho', hof⟩ x h1 h2
    have hbm : b ∈ L ++ b :: R := List.mem_append_right _ (List.mem_cons_self ..)
    apply hk x (h.heap.kept_used hc hcf h1 h2).tail
    rcases h.heap.blocks.toPrefix.spaced hc hbm with rfl | hcb | hcb
    · exact absurd (hof.ptr.trans ho.symm) (mem_drop.1 ho').2
    · exact .inl (by omega)
    · exact .inr (by omega)
  · intro o' ho'
    exact (mem_drop.1 ho').1

theorem Serves.owners_drop (h : Serves m P e (L ++ b :: R) ls os) (hf : b.free = false) (hne : b ≠ areaBlk P)
    (ho : o.ptr = b.addr + 8) : (∀ c ∈ used L ++ used R, c.addr ≠ b.addr) ∧
      Owners P (used L ++ used R) (drop os o.ptr) := by
  have hown := h.owners
  rw [used_append, used_cons_used hf] at hown
  have hdis (c : Blk) (hc : c ∈ used L ++ used R) : c.addr ≠ b.addr := by
    have h0 := h.heap.openUsed hf
    have hc : c ∈ L ++ R := by
      rw [← used_append] at hc
      exact (mem_used.1 hc).1
    have hs := h0.sides hc
    have hmin := h0.min
    omega
  exact ⟨hdis, hown.remove hdis hne ho⟩

/-- The block of an object is given back. -/
theorem Serves.remove (h : Serves m P e (L ++ b :: R) ls os) (hf : b.free = false) (hne : b ≠ areaBlk P)
    (ho : o.ptr = b.addr + 8) (h' : Heap m' P e bs' ls') (hu : used bs' = used L ++ used R)
    (hk : ∀ x, Kept P e (L ++ R) x → (x < b.addr ∨ b.addr + 8 + b.size ≤ x) → m' x = m x) :
    Serves m' P e bs' ls' (drop os o.ptr) := by
  refine ⟨h', ?_, h.others hf ho hk⟩
  rw [hu]
  exact (h.owners_drop hf hne ho).2

/-- The block of an object is changed. -/
theorem Serves.change (h : Serves m P e (L ++ b :: R) ls os) (hf : b.free = false) (hne : b ≠ areaBlk P)
    (ho : o.ptr = b.addr + 8) (h' : Heap m' P e bs' ls') (hu : used bs' = used L ++ ⟨b.addr, s, false⟩ :: used R)
    (hs : 4 * n ≤ s) (hk : ∀ x, Kept P e (L ++ R) x → (x < b.addr ∨ b.addr + 8 + b.size ≤ x) → m' x = m x) :
    Serves m' P e bs' ls' (⟨o.ptr, load m' o.ptr n⟩ :: drop os o.ptr) := by
  obtain ⟨hdis, hown⟩ := h.owners_drop hf hne ho
  refine ⟨h', ?_, ?_⟩
  · rw [hu]
    apply hown.add (b := ⟨b.addr, s, false⟩) hdis
    refine ⟨ho, ?_⟩
    change 4 * (load m' o.ptr n).length ≤ s
    rw [load_length]
    exact hs
  · intro o' ho'
    rcases List.mem_cons.1 ho' with rfl | ho'
    · change load m' o.ptr (load m' o.ptr n).length = load m' o.ptr n
      rw [load_length]
    · exact h.others hf ho hk o' ho'

end

end AspKernel.Tlsf
