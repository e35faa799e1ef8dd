import AspKernel.SRecord

/-! The memory image of an S-record file, and what is looked up in it. -/

namespace AspKernel.Toppers.SRecord
set_option autoImplicit true
open Itronx (Str isSpace)

/-- An element of `data_` -/
structure Segment where
  first : BitVec 64
  second : List (BitVec 8)
  deriving DecidableEq, Repr

def Segment.stop (s : Segment) : BitVec 64 := s.first + BitVec.ofNat 64 s.second.length

/-- `data_`, and `cache_` as a place in it. -/
structure Image where
  data : List Segment
  cache : Nat
  deriving DecidableEq, Repr

/-- The data of a record goes behind every segment that ends at its address. -/
def addRecord (data : List Segment) (rec : Record) : List Segment :=
  if data.any fun s => rec.address = s.stop then
    data.map fun s => if rec.address = s.stop then { s with second := s.second ++ rec.data } else s
  else data ++ [⟨rec.address, rec.data⟩]

def loadLines : List Segment → List Str → Except Err (List Segment)
  | data, [] => .ok data
  | data, buf :: lines =>
    if buf = [] then .ok data
    else do
      let rec ← readRecord buf
      loadLines (if '1' ≤ rec.type ∧ rec.type ≤ '3' then addRecord data rec else data) lines

def load (srec : Image) (istr : Str) : Except Err Image := do
  let data ← loadLines srec.data (istr.splitOn '\n')
  return ⟨data, 0⟩

def Segment.covers (s : Segment) (address : BitVec 64) : Bool := s.first ≤ address ∧ address < s.stop

/-- `iter->second.at( address - iter->first )` -/
def Segment.at (s : Segment) (address : BitVec 64) : Option Int :=
  s.second[(address - s.first).toNat]?.map fun b => (b.toNat : Int)

/-- A segment that is found is the one that is looked at first the next time. -/
def Image.hit (srec : Image) (iter : Nat) (address : BitVec 64) : Option (Int × Image) :=
  (srec.data[iter]?.bind (·.at address)).map (·, { srec with cache := iter })

/-- The loops of `s_record::operator[]` -/
def Image.search (srec : Image) (address : BitVec 64) : Option (Int × Image) :=
  match (srec.data.drop srec.cache).findIdx? (·.covers address) with
  | some i => srec.hit (srec.cache + i) address
  | none =>
    match (srec.data.take srec.cache).findIdx? (·.covers address) with
    | some i => srec.hit i address
    | none => some (-1, srec)

/-- `s_record::operator[]`; nothing where `at` throws. -/
def Image.get (srec : Image) (address : BitVec 64) : Option (Int × Image) :=
  match srec.data[srec.cache]? with
  | none => srec.search address
  | some s => if s.covers address then (s.at address).map (·, srec) else srec.search address

inductive DataError
  | dataError
  deriving DecidableEq, Repr

def valueLoop : Image → BitVec 64 → List Nat → BitVec 64 → Option (Except DataError (BitVec 64) × Image)
  | srec, _, [], value => some (.ok value, srec)
  | srec, base, j :: js, value => do
    let (t, srec) ← srec.get (base + BitVec.ofNat 64 j)
    if t < 0 then return (.error .dataError, srec)
    else valueLoop srec base js (value <<< 8 ||| (BitVec.ofInt 64 t &&& 0xff))

/-- `s_record::get_value` -/
def Image.getValue (srec : Image) (base : BitVec 64) (size : Nat) (littleEndian : Bool) :
    Option (Except DataError (BitVec 64) × Image) :=
  valueLoop srec base (if littleEndian then (List.range size).reverse else List.range size) 0

/-- A lookup of a byte or of an integer. -/
inductive Query
  | byte (address : BitVec 64)
  | value (base : BitVec 64) (size : Nat) (littleEndian : Bool) (h : 1 ≤ size ∧ size ≤ 8)

/-- What a lookup returns, or throws. -/
inductive Answer
  | byte (t : Int)
  | value (value : Except DataError (BitVec 64))

def Image.query (srec : Image) : Query → Option (Answer × Image)
  | .byte address => (srec.get address).map fun r => (.byte r.1, r.2)
  | .value base size littleEndian _ => (srec.getValue base size littleEndian).map fun r => (.value r.1, r.2)

def Image.queries : Image → List Query → Option (List Answer)
  | _, [] => some []
  | srec, q :: qs => do
    let (a, srec) ← srec.query q
    return a :: (← srec.queries qs)

def Record.byteAt (r : Record) (a : Nat) : Option (BitVec 8) :=
  if r.address.toNat ≤ a then r.data[a - r.address.toNat]? else none

/-- The byte that records define for an address. -/
def byteAt (recs : List Record) (a : Nat) : Option (BitVec 8) := recs.findSome? (·.byteAt a)

/-- What a lookup is to give: a byte is its value or -1, and an integer is the number of its bytes if all are defined. -/
def answer (recs : List Record) : Query → Answer
  | .byte address => .byte ((byteAt recs address.toNat).elim (-1) fun b => b.toNat)
  | .value base size littleEndian _ => .value (
    match (List.range size).mapM fun j => byteAt recs (base.toNat + j) with
    | none => .error .dataError
    | some bytes =>
      let bytes := bytes.map (·.toNat)
      .ok (BitVec.ofNat 64 (Nat.ofDigits 256 (if littleEndian then bytes else bytes.reverse))))

/-- Records as they stand in lines; those of other types than 1 to 3 have no data. -/
inductive Lines : List Str → List Record → Prop
  | nil : Lines [] []
  | data (hf : Fields (trimmed buf) ch digits count) (hv : Values rec ch digits count) (hn : '\n' ∉ buf)
      (hch : '1' ≤ ch ∧ ch ≤ '3') (h : Lines lines recs) : Lines (buf :: lines) (rec :: recs)
  | other (hw : Fields (trimmed buf) ch digits count) (hn : '\n' ∉ buf) (hch : ¬('1' ≤ ch ∧ ch ≤ '3'))
      (h : Lines lines recs) : Lines (buf :: lines) recs

/-- A record has data at an address. -/
def Record.Defines (r : Record) (a : Nat) : Prop := r.address.toNat ≤ a ∧ a < r.address.toNat + r.data.length

/-- The data ranges of two records have no address in common. -/
def Apart (r r' : Record) : Prop := ∀ a, ¬(r.Defines a ∧ r'.Defines a)

/-- The sizes of a record that fits into a line. -/
structure Record.Sized (r : Record) : Prop where
  address : r.address.toNat < 2 ^ 32
  data : r.data.length < 256

theorem Values.sized (hf : Fields buf ch digits count) (hv : Values r ch digits count) : r.Sized := by
  obtain ⟨hi, lo, rest, rfl, -, hlt, -⟩ := hf.checked
  have hbytes := addressBytes_bounds ch
  constructor
  · have haddr := hv.address
    change Numeral.read 16 (rest.take (2 * addressBytes ch)) = _ at haddr
    unfold Numeral.read at haddr
    obtain ⟨-, haddr⟩ := Option.ite_none_left_eq_some.1 haddr
    obtain ⟨v, hv, hvlt⟩ := readFrom_isSome (fun c hc => hf.hex c
      (List.mem_cons_of_mem _ (List.mem_cons_of_mem _ (List.mem_of_mem_take hc)))) 0
      (l := rest.take (2 * addressBytes ch))
    rw [Option.some.inj (haddr.symm.trans hv)]
    calc v < (0 + 1) * 16 ^ (rest.take (2 * addressBytes ch)).length := hvlt
      _ ≤ 1 * 16 ^ 8 := Nat.mul_le_mul_left _ (Nat.pow_le_pow_right (by decide)
        (le_trans (List.length_take_le _ _) (by omega)))
      _ = 2 ^ 32 := by decide
  · rw [hv.size]
    omega

/-- The digits say what a record has. -/
theorem Values.unique (h : Values r ch digits count) (h' : Values r' ch digits count) :
    r.type = r'.type ∧ r.address = r'.address ∧ r.data = r'.data := by
  refine ⟨h.type.trans h'.type.symm, ?_, ?_⟩
  · exact BitVec.eq_of_toNat_eq (Option.some.inj (h.address.symm.trans h'.address))
  · apply List.ext_getElem (h.size.trans h'.size.symm)
    intro i hi hi'
    exact BitVec.eq_of_toNat_eq (Option.some.inj ((h.data i hi).symm.trans (h'.data i hi')))

section
variable {r r' : Record} {recs : List Record}

theorem Record.Defines.byteAt (h : r.Defines a) : ∃ b, r.byteAt a = some b := by
  unfold Record.byteAt
  rw [if_pos h.1]
  exact ⟨_, List.getElem?_eq_getElem (Nat.sub_lt_left_of_lt_add h.1 h.2)⟩

theorem Record.defines_of_byteAt (h : r.byteAt a = some b) : r.Defines a := by
  unfold Record.byteAt at h
  obtain ⟨hle, hb⟩ := Option.ite_none_right_eq_some.1 h
  obtain ⟨hlt, -⟩ := List.getElem?_eq_some_iff.1 hb
  exact ⟨hle, by omega⟩

theorem byteAt_append (a : Nat) : byteAt (recs ++ [r]) a = (byteAt recs a).or (r.byteAt a) := by
  unfold byteAt
  rw [List.findSome?_append]
  cases hr : r.byteAt a with
  | none => simp [hr]
  | some b => simp [hr]

/-- A record that is apart of others defines what they do not. -/
theorem byteAt_none (h : ∀ r' ∈ recs, Apart r' r) (hr : r.Defines a) : byteAt recs a = none := by
  apply List.findSome?_eq_none_iff.2
  intro r' hr'
  cases hb : r'.byteAt a with
  | none => rfl
  | some b => exact absurd ⟨Record.defines_of_byteAt hb, hr⟩ (h r' hr' a)

end

/-- The bytes of a segment are those of records. -/
structure Segment.Shows (s : Segment) (recs : List Record) : Prop where
  small : s.first.toNat + s.second.length < 2 ^ 33
  bytes : ∀ i (h : i < s.second.length), byteAt recs (s.first.toNat + i) = some s.second[i]

/-- The segments have the bytes of the records, and no others. -/
structure Holds (data : List Segment) (recs : List Record) : Prop where
  shows : ∀ s ∈ data, s.Shows recs
  covered : ∀ a b, byteAt recs a = some b →
    ∃ s ∈ data, s.first.toNat ≤ a ∧ a < s.first.toNat + s.second.length

section
variable {s : Segment} {data : List Segment} {recs : List Record} {r : Record} {a : BitVec 64}

theorem Segment.Shows.stop_toNat (h : s.Shows recs) : s.stop.toNat = s.first.toNat + s.second.length := by
  have hsmall := h.small
  unfold Segment.stop
  rw [BitVec.toNat_add, BitVec.toNat_ofNat]
  omega

theorem Segment.Shows.covers_iff (h : s.Shows recs) :
    s.covers a = true ↔ s.first.toNat ≤ a.toNat ∧ a.toNat < s.first.toNat + s.second.length := by
  unfold Segment.covers
  rw [decide_eq_true_iff, BitVec.le_def, BitVec.lt_def, h.stop_toNat]

theorem byteAt_keep {a : Nat} (h : byteAt recs a = some b) : byteAt (recs ++ [r]) a = some b := by
  rw [byteAt_append, h]
  rfl

theorem Segment.Shows.keep (h : s.Shows recs) : s.Shows (recs ++ [r]) :=
  ⟨h.small, fun i hi => byteAt_keep (h.bytes i hi)⟩

/-- The data of a record behind a segment that ends at its address. -/
theorem Segment.Shows.extend (h : s.Shows recs) (hr : r.Sized) (hap : ∀ r' ∈ recs, Apart r' r)
    (hstop : r.address = s.stop) : Segment.Shows { s with second := s.second ++ r.data } (recs ++ [r]) := by
  have haddr : r.address.toNat = s.first.toNat + s.second.length := by rw [hstop, h.stop_toNat]
  have hlt := hr.address
  have hlen := hr.data
  constructor
  · dsimp only
    rw [List.length_append]
    omega
  · dsimp only
    intro i hi
    rw [List.length_append] at hi
    rw [byteAt_append]
    by_cases hold : i < s.second.length
    · rw [h.bytes i hold, List.getElem_append_left hold]
      rfl
    · have hdef : r.Defines (s.first.toNat + i) := ⟨by omega, by omega⟩
      rw [byteAt_none hap hdef, List.getElem_append_right (by omega)]
      change r.byteAt _ = _
      unfold Record.byteAt
      rw [if_pos hdef.1, List.getElem?_eq_some_iff]
      have hsub : s.first.toNat + i - r.address.toNat = i - s.second.length := by omega
      exact ⟨by omega, by simp only [hsub]⟩

theorem Segment.Shows.fresh (hr : r.Sized) (hap : ∀ r' ∈ recs, Apart r' r) :
    Segment.Shows ⟨r.address, r.data⟩ (recs ++ [r]) := by
  have hempty : Segment.Shows ⟨r.address, []⟩ recs := by
    constructor
    · have hlt := hr.address
      change r.address.toNat + 0 < _
      omega
    · intro i hi
      exact absurd hi (Nat.not_lt_zero i)
  exact hempty.extend hr hap (BitVec.add_zero _).symm

/-- A segment that is there keeps its range, or gets a larger one. -/
theorem Holds.addRecord (h : Holds data recs) (hr : r.Sized) (hap : ∀ r' ∈ recs, Apart r' r) :
    Holds (addRecord data r) (recs ++ [r]) := by
  unfold SRecord.addRecord
  split
  · rename_i hany
    constructor
    · intro s hs
      obtain ⟨s₀, hs₀, rfl⟩ := List.mem_map.1 hs
      split
      · rename_i hstop
        exact (h.shows s₀ hs₀).extend hr hap hstop
      · exact (h.shows s₀ hs₀).keep
    · intro a b hb
      rw [byteAt_append] at hb
      rcases Option.or_eq_some_iff.1 hb with hb | ⟨-, hb⟩
      · obtain ⟨s, hs, hle, hlt⟩ := h.covered a b hb
        refine ⟨_, List.mem_map_of_mem hs, ?_⟩
        split
        · simp only [List.length_append]
          omega
        · exact ⟨hle, hlt⟩
      · obtain ⟨hle, hlt⟩ := Record.defines_of_byteAt hb
        obtain ⟨s, hs, hstop⟩ := List.any_eq_true.1 hany
        have hstop := of_decide_eq_true hstop
        have haddr := (h.shows s hs).stop_toNat
        refine ⟨_, List.mem_map_of_mem hs, ?_⟩
        rw [if_pos hstop]
        simp only [List.length_append]
        rw [← hstop] at haddr
        omega
  · constructor
    · intro s hs
      rcases List.mem_append.1 hs with hs | hs
      · exact (h.shows s hs).keep
      · cases List.mem_singleton.1 hs
        exact .fresh hr hap
    · intro a b hb
      rw [byteAt_append] at hb
      rcases Option.or_eq_some_iff.1 hb with hb | ⟨-, hb⟩
      · obtain ⟨s, hs, hin⟩ := h.covered a b hb
        exact ⟨s, List.mem_append_left _ hs, hin⟩
      · exact ⟨_, List.mem_append_right _ (List.mem_singleton_self _), Record.defines_of_byteAt hb⟩

end

/-- A text of lines, with a newline at its end or without. -/
def text (lines : List Str) (final : Bool) : Str :=
  ['\n'].intercalate (lines ++ if final then [[]] else [])

theorem Lines.newline_not_mem (h : Lines lines recs) : ∀ buf ∈ lines, '\n' ∉ buf := by
  induction h with
  | nil =>
    intro buf hbuf
    cases hbuf
  | data hf hv hn hch h ih => exact List.forall_mem_cons.2 ⟨hn, ih⟩
  | other hf hn hch h ih => exact List.forall_mem_cons.2 ⟨hn, ih⟩

theorem loadLines_cons (data : List Segment) (lines : List Str) (hf : Fields (trimmed buf) ch digits count) :
    ∃ r, Values r ch digits count ∧ loadLines data (buf :: lines) =
      loadLines (if '1' ≤ ch ∧ ch ≤ '3' then addRecord data r else data) lines := by
  obtain ⟨r, hread, hr⟩ := hf.readRecord_eq
  have hne : buf ≠ [] := by
    rintro rfl
    cases hf.line
  refine ⟨r, hr, ?_⟩
  conv => lhs; unfold loadLines
  rw [if_neg hne, hread, ok_bind, hr.type]

/-- Records that are apart are in the segments that are loaded. -/
theorem loadLines_holds (hl : Lines lines recs) (hd : (before ++ recs).Pairwise Apart) (h : Holds data before)
    (htail : tail = [] ∨ ∃ rest, tail = [] :: rest) :
    ∃ data', loadLines data (lines ++ tail) = .ok data' ∧ Holds data' (before ++ recs) := by
  induction hl generalizing data before with
  | nil =>
    rw [List.append_nil]
    refine ⟨data, ?_, h⟩
    rcases htail with rfl | ⟨rest, rfl⟩
    · rfl
    · rfl
  | @data buf ch digits count rec lines recs hf hv hn hch hl ih =>
    obtain ⟨r, hr, hload⟩ := loadLines_cons data (lines ++ tail) hf
    obtain ⟨-, haddr, hdata⟩ := hr.unique hv
    have hrec : addRecord data r = addRecord data rec := by
      unfold addRecord
      rw [haddr, hdata]
    have hap : ∀ r' ∈ before, Apart r' rec := fun r' hr' =>
      (List.pairwise_append.1 hd).2.2 r' hr' rec List.mem_cons_self
    have hd' : ((before ++ [rec]) ++ recs).Pairwise Apart := by rwa [List.append_assoc]
    obtain ⟨data', hdata', hholds⟩ := ih hd' (h.addRecord (hv.sized hf) hap)
    rw [List.append_assoc] at hholds
    exact ⟨data', by rw [List.cons_append, hload, if_pos hch, hrec, hdata'], hholds⟩
  | @other buf ch digits count lines recs hf hn hch hl ih =>
    obtain ⟨r, -, hload⟩ := loadLines_cons data (lines ++ tail) hf
    obtain ⟨data', hdata', hholds⟩ := ih hd h
    exact ⟨data', by rw [List.cons_append, hload, if_neg hch, hdata'], hholds⟩

theorem text_splitOn (h : ∀ buf ∈ lines, '\n' ∉ buf) (final : Bool) :
    ∃ tail, (text lines final).splitOn '\n' = lines ++ tail ∧ (tail = [] ∨ ∃ rest, tail = [] :: rest) := by
  unfold text
  cases final with
  | true =>
    refine ⟨[[]], List.splitOn_intercalate '\n' (List.forall_mem_append.2 ⟨h, ?_⟩) ?_, .inr ⟨[], rfl⟩⟩
    · intro buf hbuf
      cases List.mem_singleton.1 hbuf
      exact List.not_mem_nil
    · exact List.append_ne_nil_of_right_ne_nil _ (List.cons_ne_nil _ _)
  | false =>
    rw [if_neg Bool.false_ne_true, List.append_nil]
    cases lines with
    | nil => exact ⟨[[]], rfl, .inr ⟨[], rfl⟩⟩
    | cons buf lines =>
      exact ⟨[], by rw [List.append_nil, List.splitOn_intercalate '\n' h (List.cons_ne_nil _ _)], .inl rfl⟩

theorem load_holds (hl : Lines lines recs) (hd : recs.Pairwise Apart) (final : Bool) :
    ∃ data, load ⟨[], 0⟩ (text lines final) = .ok ⟨data, 0⟩ ∧ Holds data recs := by
  have hempty : Holds [] [] := by
    constructor
    · intro s hs
      cases hs
    · intro a b hb
      cases hb
  obtain ⟨tail, hsplit, htail⟩ := text_splitOn hl.newline_not_mem final
  have hall : ([] ++ recs).Pairwise Apart := hd
  obtain ⟨data, hload, hholds⟩ := loadLines_holds hl hall hempty htail
  refine ⟨data, ?_, hholds⟩
  unfold load
  rw [hsplit, hload]
  rfl

section
variable {data : List Segment} {recs : List Record} (h : Holds data recs)
include h

/-- The byte at an address of a segment. -/
theorem Holds.at_eq (hs : s ∈ data) (hc : s.covers a = true) :
    ∃ b, byteAt recs a.toNat = some b ∧ s.at a = some (b.toNat : Int) := by
  have hshows := h.shows s hs
  obtain ⟨hle, hlt⟩ := hshows.covers_iff.1 hc
  have hb := hshows.bytes (a.toNat - s.first.toNat) (by omega)
  rw [Nat.add_sub_cancel' hle] at hb
  refine ⟨_, hb, ?_⟩
  unfold Segment.at
  rw [BitVec.toNat_sub_of_le (BitVec.le_def.2 hle), List.getElem?_eq_getElem (by omega)]
  rfl

/-- Where no segment has an address, no record defines it. -/
theorem Holds.byteAt_none (hc : ∀ s ∈ data, s.covers a = false) : byteAt recs a.toNat = none := by
  cases hb : byteAt recs a.toNat with
  | none => rfl
  | some b =>
    obtain ⟨s, hs, hin⟩ := h.covered _ b hb
    exact absurd ((h.shows s hs).covers_iff.2 hin) (Bool.eq_false_iff.1 (hc s hs))

theorem Holds.hit_eq (hs : data[iter]? = some s) (hc : s.covers a = true) :
    Image.hit ⟨data, cache⟩ iter a =
      some ((byteAt recs a.toNat).elim (-1) fun b => (b.toNat : Int), ⟨data, iter⟩) := by
  obtain ⟨b, hb, hat⟩ := h.at_eq (List.mem_of_getElem? hs) hc
  unfold Image.hit
  rw [hs, Option.bind_some, hat, hb]
  rfl

/-- A byte is found in the segments from the cached one on, or in those before it. -/
theorem Holds.search_eq (cache : Nat) (a : BitVec 64) : ∃ cache', Image.search ⟨data, cache⟩ a =
    some ((byteAt recs a.toNat).elim (-1) fun b => (b.toNat : Int), ⟨data, cache'⟩) := by
  unfold Image.search
  cases hafter : (data.drop cache).findIdx? (·.covers a) with
  | some i =>
    obtain ⟨hi, hc, -⟩ := List.findIdx?_eq_some_iff_getElem.1 hafter
    refine ⟨cache + i, h.hit_eq (s := (data.drop cache)[i]) ?_ hc⟩
    rw [← List.getElem?_drop, List.getElem?_eq_getElem hi]
  | none =>
    cases hbefore : (data.take cache).findIdx? (·.covers a) with
    | some i =>
      obtain ⟨hi, hc, -⟩ := List.findIdx?_eq_some_iff_getElem.1 hbefore
      refine ⟨i, h.hit_eq (s := (data.take cache)[i]) ?_ hc⟩
      rw [List.getElem_take]
      exact List.getElem?_eq_getElem _
    | none =>
      refine ⟨cache, ?_⟩
      have hnone : byteAt recs a.toNat = none := by
        apply h.byteAt_none
        intro s hs
        rw [← List.take_append_drop cache data] at hs
        rcases List.mem_append.1 hs with hs | hs
        · exact List.findIdx?_eq_none_iff.1 hbefore s hs
        · exact List.findIdx?_eq_none_iff.1 hafter s hs
      rw [hnone]
      rfl

/-- A byte is found from every cached segment. -/
theorem Holds.get_eq (cache : Nat) (a : BitVec 64) : ∃ cache', Image.get ⟨data, cache⟩ a =
    some ((byteAt recs a.toNat).elim (-1) fun b => (b.toNat : Int), ⟨data, cache'⟩) := by
  unfold Image.get
  cases hs : data[cache]? with
  | none => exact h.search_eq cache a
  | some s =>
    dsimp only
    split
    · rename_i hc
      obtain ⟨b, hb, hat⟩ := h.at_eq (List.mem_of_getElem? hs) hc
      exact ⟨cache, by rw [hat, hb]; rfl⟩
    · exact h.search_eq cache a

/-- The bytes of an integer are put together in their order. -/
theorem Holds.valueLoop_eq (cache : Nat) (base : BitVec 64) (js : List Nat) (m : Nat) :
    ∃ cache', valueLoop ⟨data, cache⟩ base js (BitVec.ofNat 64 m) =
      some (match js.mapM fun j => byteAt recs (base + BitVec.ofNat 64 j).toNat with
        | none => .error .dataError
        | some bytes => .ok (BitVec.ofNat 64 (bytes.foldl (fun m b => m * 256 + b.toNat) m)), ⟨data, cache'⟩) := by
  induction js generalizing cache m with
  | nil => exact ⟨cache, rfl⟩
  | cons j js ih =>
    obtain ⟨cache', hget⟩ := h.get_eq cache (base + BitVec.ofNat 64 j)
    unfold valueLoop
    rw [hget, Option.bind_eq_bind, Option.bind_some, List.mapM_cons]
    cases hb : byteAt recs (base + BitVec.ofNat 64 j).toNat with
    | none => exact ⟨cache', rfl⟩
    | some b =>
      have hbyte : BitVec.ofInt 64 (b.toNat : Int) &&& 0xff = BitVec.ofNat 64 b.toNat := by
        have hlt := b.isLt
        apply BitVec.eq_of_toNat_eq
        rw [BitVec.ofInt_natCast, BitVec.toNat_and, BitVec.toNat_ofNat]
        change _ &&& (2 ^ 8 - 1) = _
        rw [Nat.and_two_pow_sub_one_eq_mod]
        omega
      dsimp only [Option.elim]
      rw [if_neg (by omega), hbyte, shift_or 64 m 8 b.isLt]
      obtain ⟨cache'', hloop⟩ := ih cache' (m * 2 ^ 8 + b.toNat)
      refine ⟨cache'', ?_⟩
      rw [hloop]
      cases hmap : js.mapM fun j => byteAt recs (base + BitVec.ofNat 64 j).toNat with
      | none => rfl
      | some bytes => rfl

end

theorem mapM_eq_some {f : α → Option β} {l : List α} {bs : List β} : l.mapM f = some bs ↔ l.map f = bs.map some := by
  induction l generalizing bs with
  | nil =>
    cases bs with
    | nil => exact iff_of_true rfl rfl
    | cons b bs => exact iff_of_false (fun h => by cases h) (fun h => by cases h)
  | cons a l ih =>
    rw [List.mapM_cons, List.map_cons]
    cases ha : f a with
    | none =>
      apply iff_of_false
      · intro h
        cases h
      · intro h
        cases bs with
        | nil => cases h
        | cons b bs => cases (List.cons.inj h).1
    | some c =>
      rw [Option.bind_eq_bind, Option.bind_some]
      cases bs with
      | nil =>
        apply iff_of_false
        · intro h
          obtain ⟨bs, -, h⟩ := Option.bind_eq_some_iff.1 h
          cases h
        · intro h
          cases h
      | cons b bs =>
        constructor
        · intro h
          obtain ⟨bs', hbs, h⟩ := Option.bind_eq_some_iff.1 h
          cases h
          rw [ih.1 hbs, List.map_cons]
        · intro h
          obtain ⟨hb, hbs⟩ := List.cons.inj h
          cases hb
          rw [ih.2 hbs]
          rfl

theorem foldl_ofDigits (bytes : List (BitVec 8)) :
    bytes.foldl (fun m b => m * 256 + b.toNat) 0 = Nat.ofDigits 256 (bytes.reverse.map (·.toNat)) := by
  induction bytes using List.reverseRecOn with
  | nil => rfl
  | append_singleton bytes b ih =>
    rw [List.foldl_append, ih, List.reverse_append, List.map_append]
    exact (Nat.add_comm _ _).trans (congrArg (b.toNat + ·) (Nat.mul_comm _ _))

theorem mapM_eq_none {f : α → Option β} {l : List α} (hj : j ∈ l) (hf : f j = none) : l.mapM f = none := by
  cases hm : l.mapM f with
  | none => rfl
  | some bs =>
    have hmem : f j ∈ l.map f := List.mem_map_of_mem hj
    rw [mapM_eq_some.1 hm, hf] at hmem
    obtain ⟨b, -, hb⟩ := List.mem_map.1 hmem
    cases hb

theorem mapM_congr {f g : α → Option β} {l : List α} (h : ∀ j ∈ l, f j = g j) : l.mapM f = l.mapM g := by
  apply Option.ext
  intro bs
  rw [mapM_eq_some, mapM_eq_some, List.map_congr_left h]

/-- Where the addresses of an integer wrap, the first is not defined. -/
theorem Holds.mapM_wrap (h : Holds data recs) (base : BitVec 64) (hsize : 1 ≤ size ∧ size ≤ 8) {js : List Nat}
    (hjs : ∀ j, j ∈ js ↔ j < size) :
    (js.mapM fun j => byteAt recs (base + BitVec.ofNat 64 j).toNat) =
      js.mapM fun j => byteAt recs (base.toNat + j) := by
  by_cases hfit : base.toNat + size ≤ 2 ^ 64
  · apply mapM_congr
    intro j hj
    have hlt := (hjs j).1 hj
    rw [BitVec.toNat_add, BitVec.toNat_ofNat]
    congr 1
    omega
  · have hnone : byteAt recs base.toNat = none := by
      cases hb : byteAt recs base.toNat with
      | none => rfl
      | some b =>
        obtain ⟨s, hs, -, hlt⟩ := h.covered _ b hb
        have hsmall := (h.shows s hs).small
        omega
    have hzero : 0 ∈ js := (hjs 0).2 (by omega)
    rw [mapM_eq_none hzero (by simpa using hnone), mapM_eq_none hzero (by simpa using hnone)]

/-- What the bytes of an integer give from the last one on. -/
theorem mapM_reverse {f : α → Option β} (l : List α) : l.reverse.mapM f = (l.mapM f).map List.reverse := by
  apply Option.ext
  intro bs
  rw [mapM_eq_some, List.map_reverse, Option.map_eq_some_iff]
  constructor
  · intro hm
    refine ⟨bs.reverse, mapM_eq_some.2 ?_, List.reverse_reverse bs⟩
    rw [List.map_reverse, ← hm, List.reverse_reverse]
  · rintro ⟨bs, hm, rfl⟩
    rw [mapM_eq_some.1 hm, List.map_reverse]

theorem Holds.getValue_eq (h : Holds data recs) (cache : Nat) (base : BitVec 64) (hsize : 1 ≤ size ∧ size ≤ 8)
    (littleEndian : Bool) :
    ∃ cache', Image.query ⟨data, cache⟩ (.value base size littleEndian hsize) =
      some (answer recs (.value base size littleEndian hsize), ⟨data, cache'⟩) := by
  have hrange : ∀ j, j ∈ List.range size ↔ j < size := fun j => List.mem_range
  unfold Image.query Image.getValue answer
  cases littleEndian with
  | true =>
    obtain ⟨cache', hloop⟩ := h.valueLoop_eq cache base (List.range size).reverse 0
    refine ⟨cache', ?_⟩
    rw [h.mapM_wrap base hsize (fun j => List.mem_reverse.trans (hrange j)), mapM_reverse] at hloop
    dsimp only
    rw [if_pos rfl]
    change (valueLoop _ _ _ (BitVec.ofNat 64 0)).map _ = _
    rw [hloop]
    cases (List.range size).mapM fun j => byteAt recs (base.toNat + j) with
    | none => rfl
    | some bytes =>
      dsimp only [Option.map]
      rw [foldl_ofDigits, List.reverse_reverse, if_pos rfl]
  | false =>
    obtain ⟨cache', hloop⟩ := h.valueLoop_eq cache base (List.range size) 0
    refine ⟨cache', ?_⟩
    rw [h.mapM_wrap base hsize hrange] at hloop
    dsimp only
    rw [if_neg Bool.false_ne_true]
    change (valueLoop _ _ _ (BitVec.ofNat 64 0)).map _ = _
    rw [hloop]
    cases (List.range size).mapM fun j => byteAt recs (base.toNat + j) with
    | none => rfl
    | some bytes =>
      dsimp only [Option.map]
      rw [foldl_ofDigits, if_neg Bool.false_ne_true, List.map_reverse]

theorem Holds.queries_eq (h : Holds data recs) (cache : Nat) (qs : List Query) :
    Image.queries ⟨data, cache⟩ qs = some (qs.map (answer recs)) := by
  induction qs generalizing cache with
  | nil => rfl
  | cons q qs ih =>
    have hq : ∃ cache', Image.query ⟨data, cache⟩ q = some (answer recs q, ⟨data, cache'⟩) := by
      cases q with
      | byte address =>
        obtain ⟨cache', hget⟩ := h.get_eq cache address
        refine ⟨cache', ?_⟩
        change (Image.get ⟨data, cache⟩ address).map _ = _
        rw [hget]
        rfl
      | value base size littleEndian hsize => exact h.getValue_eq cache base hsize littleEndian
    obtain ⟨cache', hq⟩ := hq
    unfold Image.queries
    rw [hq, Option.bind_eq_bind, Option.bind_some]
    change (Image.queries ⟨data, cache'⟩ qs >>= _) = _
    rw [ih]
    rfl

/-- Records that are apart are loaded in every order, and every lookup gives what they define whatever was looked up
before. -/
theorem load_queries (hl : Lines lines recs) (hd : recs.Pairwise Apart) (final : Bool) :
    ∃ srec, load ⟨[], 0⟩ (text lines final) = .ok srec ∧
      ∀ qs, srec.queries qs = some (qs.map (answer recs)) := by
  obtain ⟨data, hload, h⟩ := load_holds hl hd final
  exact ⟨⟨data, 0⟩, hload, h.queries_eq 0⟩

/-- Two records in descending order, the second of which ends where the first begins. -/
theorem load_queries_descending : ∃ srec,
    load ⟨[], 0⟩ (text ["S1051002AABB83".toList, "S1051000112299\r".toList] true) = .ok srec ∧
      ∀ qs, srec.queries qs =
        some (qs.map (answer [⟨'1', 2, 0x1002, [0xaa, 0xbb], 0x83⟩, ⟨'1', 2, 0x1000, [0x11, 0x22], 0x99⟩])) := by
  have hfirst : Fields (trimmed "S1051002AABB83".toList) '1' "051002AABB83".toList 5 :=
    ⟨by decide, by decide, List.all_eq_true.1 rfl, by decide, by decide, by decide⟩
  have hsecond : Fields (trimmed "S1051000112299\r".toList) '1' "051000112299".toList 5 :=
    ⟨by decide, by decide, List.all_eq_true.1 rfl, by decide, by decide, by decide⟩
  apply load_queries
  · apply Lines.data hfirst ⟨rfl, rfl, rfl, by decide, by decide⟩ (by decide) (by decide)
    apply Lines.data hsecond ⟨rfl, rfl, rfl, by decide, by decide⟩ (by decide) (by decide)
    exact .nil
  · apply List.pairwise_pair.2
    rintro a ⟨⟨hle, -⟩, -, hlt⟩
    exact absurd (lt_of_le_of_lt hle hlt) (by decide)

end AspKernel.Toppers.SRecord
