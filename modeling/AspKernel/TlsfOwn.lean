import AspKernel.TlsfInit

/-! The objects of the clients and the used blocks that they have. -/

namespace AspKernel.Tlsf
set_option autoImplicit true
open WordMem

/-- An object of a client: where it starts, and its words. -/
structure Obj where
  ptr : Nat
  data : List Nat
  deriving DecidableEq, Repr

/-- The objects without the one at an address. -/
def drop (os : List Obj) (ptr : Nat) : List Obj := os.filter (·.ptr ≠ ptr)

/-- The words from an address on. -/
def load (m : Mem) (p n : Nat) : List Nat := (List.range n).map fun i => m (p + 4 * i)

/-- The block that an object has. -/
structure Of (o : Obj) (b : Blk) : Prop where
  ptr : o.ptr = b.addr + 8
  fits : 4 * o.data.length ≤ b.size

/-- Every used block but that of the area is the block of an object. -/
structure Owners (P : Nat) (us : List Blk) (os : List Obj) : Prop where
  area : areaBlk P ∈ us
  some : ∀ b ∈ us, b ≠ areaBlk P → ∃ o ∈ os, Of o b
  each : ∀ o ∈ os, ∃ b ∈ us, b ≠ areaBlk P ∧ Of o b
  nodup : (os.map Obj.ptr).Nodup

section
variable {m m' : Mem} {P e s x p : Nat} {L R bs us u₁ u₂ : List Blk} {ls : Lists} {b c : Blk} {o o' : Obj}
  {os : List Obj}

theorem mem_drop : o ∈ drop os p ↔ o ∈ os ∧ o.ptr ≠ p := by
  unfold drop
  rw [List.mem_filter, decide_eq_true_eq]

theorem load_length (m : Mem) (p n : Nat) : (load m p n).length = n := by
  unfold load
  rw [List.length_map, List.length_range]

theorem load_congr (h : ∀ i < n, m' (p + 4 * i) = m (p + 4 * i)) : load m' p n = load m p n := by
  apply List.map_congr_left
  intro i hi
  exact h i (List.mem_range.1 hi)

theorem load_getElem? (m : Mem) (p n i : Nat) : (load m p n)[i]? = if i < n then some (m (p + 4 * i)) else none := by
  unfold load
  rw [List.getElem?_map]
  by_cases hi : i < n
  · rw [List.getElem?_range hi, if_pos hi]
    rfl
  · rw [List.getElem?_eq_none (by rw [List.length_range]; omega), if_neg hi]
    rfl

theorem Obj.ext_of_nodup (h : (os.map Obj.ptr).Nodup) (ho : o ∈ os) (ho' : o' ∈ os) (he : o.ptr = o'.ptr) : o = o' :=
  List.inj_on_of_nodup_map h ho ho' he

/-- A used block gets an object. -/
theorem Owners.add (h : Owners P (u₁ ++ u₂) os) (hb : ∀ c ∈ u₁ ++ u₂, c.addr ≠ b.addr) (ho : Of o b) :
    Owners P (u₁ ++ b :: u₂) (o :: os) := by
  have hmem (c : Blk) : c ∈ u₁ ++ b :: u₂ ↔ c = b ∨ c ∈ u₁ ++ u₂ := by
    simp only [List.mem_append, List.mem_cons]
    tauto
  refine ⟨(hmem _).2 (.inr h.area), ?_, ?_, ?_⟩
  · intro c hc hne
    rcases (hmem c).1 hc with rfl | hc
    · exact ⟨o, List.mem_cons_self .., ho⟩
    · obtain ⟨o', ho', hof⟩ := h.some c hc hne
      exact ⟨o', List.mem_cons_of_mem o ho', hof⟩
  · intro o' ho'
    rcases List.mem_cons.1 ho' with rfl | ho'
    · refine ⟨b, (hmem b).2 (.inl rfl), ?_, ho⟩
      rintro rfl
      exact hb _ h.area rfl
    · obtain ⟨c, hc, hne, hof⟩ := h.each o' ho'
      exact ⟨c, (hmem c).2 (.inr hc), hne, hof⟩
  · apply List.nodup_cons.2 ⟨?_, h.nodup⟩
    intro hp
    obtain ⟨o', ho', hp⟩ := List.mem_map.1 hp
    obtain ⟨c, hc, -, hof⟩ := h.each o' ho'
    have h1 := hof.ptr
    have h2 := ho.ptr
    exact hb c hc (by omega)

/-- The object of a used block is dropped with it. -/
theorem Owners.remove (h : Owners P (u₁ ++ b :: u₂) os) (hb : ∀ c ∈ u₁ ++ u₂, c.addr ≠ b.addr)
    (hne : b ≠ areaBlk P) (ho : o.ptr = b.addr + 8) : Owners P (u₁ ++ u₂) (drop os o.ptr) := by
  have hmem (c : Blk) : c ∈ u₁ ++ b :: u₂ ↔ c = b ∨ c ∈ u₁ ++ u₂ := by
    simp only [List.mem_append, List.mem_cons]
    tauto
  refine ⟨((hmem _).1 h.area).resolve_left (fun he => hne he.symm), ?_, ?_, ?_⟩
  · intro c hc hca
    obtain ⟨o', ho', hof⟩ := h.some c ((hmem c).2 (.inr hc)) hca
    refine ⟨o', mem_drop.2 ⟨ho', ?_⟩, hof⟩
    intro he
    have h1 := hof.ptr
    exact hb c hc (by omega)
  · intro o' ho'
    obtain ⟨ho', hp⟩ := mem_drop.1 ho'
    obtain ⟨c, hc, hca, hof⟩ := h.each o' ho'
    rcases (hmem c).1 hc with rfl | hc
    · exact absurd (hof.ptr.trans ho.symm) hp
    · exact ⟨c, hc, hca, hof⟩
  · exact (List.filter_sublist.map Obj.ptr).nodup h.nodup

/-- The objects of the same blocks with other data. -/
theorem Owners.rewrite (h : Owners P us os) {f : Obj → Obj} (hp : ∀ o, (f o).ptr = o.ptr)
    (hd : ∀ o, (f o).data.length = o.data.length) : Owners P us (os.map f) := by
  have hof {o : Obj} {b : Blk} (h : Of o b) : Of (f o) b := ⟨(hp o).trans h.ptr, (hd o).symm ▸ h.fits⟩
  refine ⟨h.area, ?_, ?_, ?_⟩
  · intro b hb hne
    obtain ⟨o, ho, hob⟩ := h.some b hb hne
    exact ⟨f o, List.mem_map_of_mem ho, hof hob⟩
  · intro o' ho'
    obtain ⟨o, ho, rfl⟩ := List.mem_map.1 ho'
    obtain ⟨b, hb, hne, hob⟩ := h.each o ho
    exact ⟨b, hb, hne, hof hob⟩
  · rw [List.map_map, show Obj.ptr ∘ f = Obj.ptr from funext hp]
    exact h.nodup

/-- The words of a used block are not touched by the calls for other blocks. -/
theorem Heap.kept_used (h : Heap m P e bs ls) (hb : b ∈ bs) (hf : b.free = false) (h1 : b.addr + 8 ≤ x)
    (h2 : x < b.addr + 8 + b.size) : Kept P e bs x := by
  have hm := h.blocks.mem hb
  refine ⟨.inr (by omega), .inl (by omega), ?_⟩
  intro c hc
  rcases h.blocks.toPrefix.spaced hc hb with rfl | hcb | hcb
  · refine .inr ⟨h1, ?_⟩
    intro hcf
    rw [hf] at hcf
    cases hcf
  · exact .inr ⟨by omega, fun _ => by omega⟩
  · exact .inl (by omega)

/-- The words outside of the pool are not touched. -/
theorem Heap.kept_outside (h : Heap m P e bs ls) (hx : x < P + 8 ∨ e + 8 ≤ x) : Kept P e bs x := by
  have hle := h.blocks.le
  refine ⟨by omega, by omega, ?_⟩
  intro c hc
  have hm := h.blocks.mem hc
  rcases hx with hx | hx
  · exact .inl (by omega)
  · exact .inr ⟨by omega, fun _ => by omega⟩

theorem Heap.addr_inj (h : Heap m P e bs ls) (hb : b ∈ bs) (hc : c ∈ bs) (he : b.addr = c.addr) : b = c := by
  have hm := h.blocks.mem hb
  rcases h.blocks.toPrefix.spaced hb hc with hbc | hbc | hbc
  · exact hbc
  · omega
  · omega

theorem Prefix.aligned (h : Prefix m p₀ a bs e) (hb : b ∈ bs) : 8 ∣ b.addr - a := by
  induction bs generalizing p₀ a with
  | nil => cases hb
  | cons c bs ih =>
    obtain ⟨hc, hbs⟩ := h
    have haddr := hc.addr
    have hdvd := hc.dvd
    rcases List.mem_cons.1 hb with rfl | hb
    · omega
    · have hle := (hbs.mem hb).1
      have hal := ih hbs hb
      omega

end

end AspKernel.Tlsf
