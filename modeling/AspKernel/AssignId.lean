import AspKernel.StaticApi
import Mathlib.Data.List.Forall2

namespace AspKernel.Itronx
set_option autoImplicit true

theorem bind_eq_ok {x : Except ε α} {f : α → Except ε β} {b : β} :
    (x >>= f) = .ok b ↔ ∃ a, x = .ok a ∧ f a = .ok b := by
  cases x with
  | error e =>
    constructor
    · intro h
      cases h
    · rintro ⟨a, h, -⟩
      cases h
  | ok a =>
    constructor
    · intro h
      exact ⟨a, rfl, h⟩
    · rintro ⟨a, h, hf⟩
      cases h
      exact hf

/-- The number that an identifier brings with it. -/
def Parameter.reserved (p : Parameter) : Option Nat :=
  p.value.bind fun v => if 0 < v then some v.toNat else none

def Parameter.request (p : Parameter) : Str × Option Nat := (p.text, p.reserved)

/-- The argument that identifies an object. -/
def StaticApi.idParam (a : StaticApi) : Option Parameter :=
  if a.info.idPos < 0 then none else a.params[a.info.idPos.toNat]?

/-- The identifier that an API creates with a number of its own. -/
def StaticApi.auto (a : StaticApi) : Option Parameter :=
  if a.info.slave then none else a.idParam.filter (·.isAuto)

/-- The name of the object that an API creates. -/
def StaticApi.creates (a : StaticApi) : Option Str :=
  if a.info.slave then none else a.idParam.map (·.text)

/-- The name of the object that a slave API adds something to. -/
def StaticApi.slaveOf (a : StaticApi) : Option Str :=
  if a.info.slave then a.idParam.map (·.text) else none

def autos (apis : List StaticApi) : List Parameter := apis.filterMap StaticApi.auto

/-- What an API does to the names, whatever numbers they get. -/
inductive Kind
  | plain
  | auto (name : Str)
  | fixed (name : Str) (positive : Bool)
  | slave (apiName name : Str)
  deriving DecidableEq

/-- There is none where the identifier is missing. -/
def StaticApi.kind (a : StaticApi) : Option Kind :=
  if a.info.idPos < 0 then some .plain
  else a.idParam.map fun p =>
    if a.info.slave then .slave a.info.apiName p.text
    else if p.isAuto then .auto p.text
    else .fixed p.text (decide (0 < p.value.getD (-1)))

/-- The name of the object that is created, and whether its number is positive. -/
def Kind.created : Kind → Option (Str × Bool)
  | .auto n => some (n, true)
  | .fixed n b => some (n, b)
  | _ => none

/-- Whether the object that was created last with a name has a positive number. -/
def lookup (ks : List Kind) : Str → Option Bool :=
  ks.foldl (fun f k => match k.created with
    | some (n, b) => Function.update f n (some b)
    | none => f) fun _ => none

/-- The names that stand before an API allow it. -/
def Admissible (ks : List Kind) : Kind → Prop
  | .auto n => lookup ks n = none
  | .slave api n => lookup ks n = some true ∧ .slave api n ∉ ks
  | _ => True

def AllAdmissible (ks : List Kind) : List Kind → Prop
  | [] => True
  | k :: ks' => Admissible ks k ∧ AllAdmissible (ks ++ [k]) ks'

section Param
variable {a : StaticApi} {p : Parameter}

theorem atPos_of_idParam (h : a.idParam = some p) :
    ¬a.info.idPos < 0 ∧ a.atPos a.info.idPos = .ok p := by
  obtain ⟨hpos, hp⟩ := Option.ite_none_left_eq_some.1 h
  refine ⟨hpos, ?_⟩
  unfold StaticApi.atPos
  rw [hp]

theorem atPos_of_none (hpos : ¬a.info.idPos < 0) (h : a.idParam = none) :
    a.atPos a.info.idPos = .error ⟨none, "out of range".toList⟩ := by
  unfold StaticApi.idParam at h
  rw [if_neg hpos] at h
  unfold StaticApi.atPos
  rw [h]

theorem auto_eq_some : a.auto = some p ↔ ¬a.info.slave ∧ a.idParam = some p ∧ p.isAuto := by
  unfold StaticApi.auto
  rw [Option.ite_none_left_eq_some, Option.filter_eq_some_iff]

theorem reserved_eq_some {i : Nat} : p.reserved = some i ↔ p.value = some (i : Int) ∧ 0 < i := by
  unfold Parameter.reserved
  cases p.value with
  | none =>
    constructor
    · intro h
      cases h
    · rintro ⟨h, -⟩
      cases h
  | some v =>
    rw [Option.bind_some, Option.ite_none_right_eq_some, Option.some.injEq, Option.some.injEq]
    omega

theorem request_eq (h : p.value = some v) :
    p.request = (p.text, if 0 < v then some v.toNat else none) := by
  unfold Parameter.request Parameter.reserved
  rw [h, Option.bind_some]

end Param

section Reserve
variable {R R' : List Str} {a : StaticApi} {p : Parameter}

theorem reserveId_plain (h : a.auto = none) (hk : a.kind ≠ none ∨ a.info.slave) :
    reserveId R a = .ok R := by
  unfold reserveId
  split
  · rfl
  · rename_i hpos
    split
    · rfl
    · rename_i hs
      cases hp : a.idParam with
      | none =>
        rcases hk with hk | hk
        · unfold StaticApi.kind at hk
          rw [if_neg hpos, hp] at hk
          exact absurd rfl hk
        · exact absurd hk hs
      | some p =>
        rw [(atPos_of_idParam hp).2]
        have hno : ¬p.isAuto = true := by
          intro hauto
          cases h.symm.trans (auto_eq_some.2 ⟨hs, hp, hauto⟩)
        exact if_neg hno

theorem reserveId_auto (h : a.auto = some p) (hv : p.value = some v) :
    reserveId R a =
      match Numbering.reserve R p.request with
      | none => .error ⟨none, "E_OBJ: ".toList ++ p.symbol.tail ++ " `".toList ++ showLong v ++
          "\' in ".toList ++ a.info.apiName ++ " is duplicated".toList⟩
      | some R' => .ok R' := by
  obtain ⟨hs, hp, hauto⟩ := auto_eq_some.1 h
  obtain ⟨hpos, hat⟩ := atPos_of_idParam hp
  unfold reserveId
  rw [if_neg hpos, if_neg hs, hat, request_eq hv]
  change (if p.isAuto = true then _ else _) = _
  rw [if_pos hauto, hv]
  unfold Numbering.reserve
  dsimp only
  by_cases hpos : 0 < v
  · rw [if_pos hpos, if_pos hpos]
    dsimp only
    by_cases hfree : Numbering.slot R v.toNat = default
    · rw [if_neg (not_not.2 hfree)]
      exact if_neg (not_not.2 hfree)
    · rw [if_pos hfree]
      exact if_pos hfree
  · rw [if_neg hpos, if_neg hpos]

/-- What the first loop does with an API. -/
theorem reserveId_ok (h : reserveId R a = .ok R') :
    (a.auto = none ∧ R' = R) ∨
      ∃ p, a.auto = some p ∧ p.value ≠ none ∧ Numbering.reserve R p.request = some R' := by
  cases ha : a.auto with
  | none =>
    refine .inl ⟨rfl, ?_⟩
    by_cases hk : a.kind ≠ none ∨ a.info.slave = true
    · rw [reserveId_plain ha hk] at h
      cases h
      rfl
    · obtain ⟨hk, hs⟩ := not_or.1 hk
      have hk := not_not.1 hk
      unfold StaticApi.kind at hk
      by_cases hpos : a.info.idPos < 0
      · rw [if_pos hpos] at hk
        cases hk
      · rw [if_neg hpos, Option.map_eq_none_iff] at hk
        unfold reserveId at h
        rw [if_neg hpos, if_neg hs, atPos_of_none hpos hk] at h
        cases h
  | some p =>
    refine .inr ⟨p, rfl, ?_⟩
    cases hv : p.value with
    | none =>
      obtain ⟨hs, hp, hauto⟩ := auto_eq_some.1 ha
      obtain ⟨hpos, hat⟩ := atPos_of_idParam hp
      unfold reserveId at h
      rw [if_neg hpos, if_neg hs, hat] at h
      change (if p.isAuto = true then _ else _) = _ at h
      rw [if_pos hauto, hv] at h
      cases h
    | some v =>
      rw [reserveId_auto ha hv] at h
      refine ⟨Option.some_ne_none v, ?_⟩
      split at h
      · cases h
      · rename_i hr
        cases h
        exact hr

/-- The first loop is the reservation of the numbers that the identifiers bring with them. -/
theorem reserveAll_ok (h : apis.foldlM reserveId R = .ok R') :
    ((autos apis).map (·.request)).foldlM Numbering.reserve R = some R' ∧
      ∀ p ∈ autos apis, p.value ≠ none := by
  induction apis generalizing R with
  | nil =>
    cases h
    exact ⟨rfl, fun p hp => absurd hp List.not_mem_nil⟩
  | cons a apis ih =>
    rw [List.foldlM_cons] at h
    obtain ⟨R₁, h₁, h⟩ := bind_eq_ok.1 h
    obtain ⟨hr, hv⟩ := ih h
    unfold autos at hr hv ⊢
    rcases reserveId_ok h₁ with ⟨ha, rfl⟩ | ⟨p, ha, hval, hres⟩
    · rw [List.filterMap_cons_none ha]
      exact ⟨hr, hv⟩
    · rw [List.filterMap_cons_some ha]
      constructor
      · rw [List.map_cons, List.foldlM_cons, hres]
        exact hr
      · intro q hq
        rcases List.mem_cons.1 hq with rfl | hq
        · exact hval
        · exact hv q hq

theorem reserveAll_of (hk : ∀ a ∈ apis, a.kind ≠ none) (hv : ∀ p ∈ autos apis, p.value ≠ none)
    (h : ((autos apis).map (·.request)).foldlM Numbering.reserve R = some R') :
    apis.foldlM reserveId R = .ok R' := by
  induction apis generalizing R with
  | nil =>
    cases h
    rfl
  | cons a apis ih =>
    have hk' : ∀ b ∈ apis, b.kind ≠ none := fun b hb => hk b (List.mem_cons_of_mem _ hb)
    rw [List.foldlM_cons]
    unfold autos at h hv
    cases ha : a.auto with
    | none =>
      rw [List.filterMap_cons_none ha] at h hv
      rw [reserveId_plain ha (.inl (hk a List.mem_cons_self))]
      exact ih hk' hv h
    | some p =>
      rw [List.filterMap_cons_some ha] at h hv
      rw [List.map_cons, List.foldlM_cons] at h
      obtain ⟨R₁, h₁, h⟩ := Option.bind_eq_some_iff.1 h
      obtain ⟨v, hval⟩ := Option.ne_none_iff_exists'.1 (hv p List.mem_cons_self)
      rw [reserveId_auto ha hval, h₁]
      exact ih hk' (fun q hq => hv q (List.mem_cons_of_mem _ hq)) h

end Reserve

section Step
variable {s s' : Loop} {a a' : StaticApi} {p : Parameter} {ks : List Kind}

/-- The case split on an API: no identifier, a missing one, or what it is used for. -/
theorem StaticApi.cases (a : StaticApi) :
    (a.info.idPos < 0 ∧ a.kind = some .plain ∧ a.auto = none) ∨
    (¬a.info.idPos < 0 ∧ a.idParam = none ∧ a.kind = none) ∨
    ∃ p, a.idParam = some p ∧
      ((a.info.slave ∧ a.kind = some (.slave a.info.apiName p.text) ∧ a.auto = none) ∨
      (¬a.info.slave ∧ p.isAuto ∧ a.kind = some (.auto p.text) ∧ a.auto = some p) ∨
      (¬a.info.slave ∧ ¬p.isAuto ∧
        a.kind = some (.fixed p.text (decide (0 < p.value.getD (-1)))) ∧ a.auto = none)) := by
  by_cases hpos : a.info.idPos < 0
  · refine .inl ⟨hpos, if_pos hpos, ?_⟩
    unfold StaticApi.auto StaticApi.idParam
    rw [if_pos hpos, Option.filter_none, ite_self]
  · refine .inr ?_
    cases hp : a.idParam with
    | none =>
      refine .inl ⟨hpos, rfl, ?_⟩
      unfold StaticApi.kind
      rw [if_neg hpos, hp, Option.map_none]
    | some p =>
      refine .inr ⟨p, rfl, ?_⟩
      have hkind : a.kind = some (if a.info.slave then .slave a.info.apiName p.text
          else if p.isAuto then .auto p.text
          else .fixed p.text (decide (0 < p.value.getD (-1)))) := by
        unfold StaticApi.kind
        rw [if_neg hpos, hp, Option.map_some]
      by_cases hs : a.info.slave
      · refine .inl ⟨hs, ?_, if_pos hs⟩
        rw [hkind, if_pos hs]
      · rw [if_neg hs] at hkind
        refine .inr ?_
        by_cases hauto : p.isAuto
        · rw [if_pos hauto] at hkind
          exact .inl ⟨hs, hauto, hkind, auto_eq_some.2 ⟨hs, hp, hauto⟩⟩
        · rw [if_neg hauto] at hkind
          refine .inr ⟨hs, hauto, hkind, ?_⟩
          unfold StaticApi.auto
          rw [if_neg hs, hp]
          exact Option.filter_some_neg (Bool.eq_false_iff.2 hauto)

theorem assignStep_auto (hs : ¬a.info.slave) (hp : a.idParam = some p) (hauto : p.isAuto) :
    assignStep s a =
      if (s.idMap p.text).isSome then .error (duplicated a.line p.text)
      else .ok ({ (giveId s a p.text).2.1 with
        idMap := Function.update s.idMap p.text (some (giveId s a p.text).1) },
        (giveId s a p.text).2.2) := by
  have hg : (giveId s a p.text).2.1.idMap = s.idMap ∧
      (giveId s a p.text).2.2.line = a.line := by
    unfold giveId
    split
    · exact ⟨rfl, rfl⟩
    · exact ⟨rfl, rfl⟩
  obtain ⟨hpos, hat⟩ := atPos_of_idParam hp
  unfold assignStep
  rw [if_neg hpos, hat]
  change (if !a.info.slave then (if p.isAuto = true then _ else _) else _) = _
  rw [if_pos (by rw [Bool.not_eq_true'] ; exact Bool.not_eq_true _ ▸ hs), if_pos hauto]
  dsimp only
  rw [hg.1, hg.2]

theorem assignStep_fixed (hs : ¬a.info.slave) (hp : a.idParam = some p) (hauto : ¬p.isAuto) :
    assignStep s a =
      .ok ({ s with idMap := Function.update s.idMap p.text (some (p.value.getD (-1))) }, a) := by
  obtain ⟨hpos, hat⟩ := atPos_of_idParam hp
  unfold assignStep
  rw [if_neg hpos, hat]
  change (if !a.info.slave then (if p.isAuto = true then _ else _) else _) = _
  rw [if_pos (by rw [Bool.not_eq_true'] ; exact Bool.not_eq_true _ ▸ hs), if_neg hauto]

theorem assignStep_slave (hs : a.info.slave) (hp : a.idParam = some p) :
    assignStep s a =
      if (s.idMap p.text).getD 0 < 1 then
        .error ⟨a.line, "E_NOEXS: `".toList ++ p.text ++ "\' is undefined".toList⟩
      else if p.text ∈ s.slaveIdSet a.info.apiName then .error (duplicated a.line p.text)
      else .ok ({ s with
        slaveIdSet := Function.update s.slaveIdSet a.info.apiName
          (p.text :: s.slaveIdSet a.info.apiName) }, a) := by
  obtain ⟨hpos, hat⟩ := atPos_of_idParam hp
  unfold assignStep
  rw [if_neg hpos, hat]
  change (if !a.info.slave then _ else _) = _
  rw [if_neg (by rw [hs] ; exact Bool.false_ne_true)]

/-- What the second loop knows of the names it has seen. -/
structure Known (ks : List Kind) (s : Loop) : Prop where
  idMap : ∀ n, lookup ks n = (s.idMap n).map fun v => decide (0 < v)
  slaves : ∀ api n, n ∈ s.slaveIdSet api ↔ Kind.slave api n ∈ ks
  zero : Numbering.slot s.idRes 0 = []
  pos : 0 < s.id

theorem lookup_created (ks : List Kind) (h : k.created = some (n, b)) :
    lookup (ks ++ [k]) = Function.update (lookup ks) n (some b) := by
  unfold lookup
  rw [List.foldl_append, List.foldl_cons, h]
  rfl

theorem lookup_other (ks : List Kind) (h : k.created = none) : lookup (ks ++ [k]) = lookup ks := by
  unfold lookup
  rw [List.foldl_append, List.foldl_cons, h]
  rfl

theorem Known.plain (h : Known ks s) : Known (ks ++ [.plain]) s := by
  refine ⟨?_, ?_, h.zero, h.pos⟩
  · intro n
    rw [lookup_other ks rfl]
    exact h.idMap n
  · intro api n
    rw [h.slaves, List.mem_append, List.mem_singleton]
    simp only [reduceCtorEq, or_false]

theorem Known.create (h : Known ks s) (hk : k.created = some (n, decide (0 < v)))
    (hm : s'.idMap = Function.update s.idMap n (some v)) (hs : s'.slaveIdSet = s.slaveIdSet)
    (hz : Numbering.slot s'.idRes 0 = []) (hpos : 0 < s'.id) : Known (ks ++ [k]) s' := by
  refine ⟨?_, ?_, hz, hpos⟩
  · intro m
    rw [lookup_created ks hk, hm]
    by_cases hmn : m = n
    · subst hmn
      rw [Function.update_self, Function.update_self, Option.map_some]
    · rw [Function.update_of_ne hmn, Function.update_of_ne hmn]
      exact h.idMap m
  · intro api m
    rw [hs, h.slaves, List.mem_append, List.mem_singleton]
    constructor
    · intro hmem
      exact .inl hmem
    · rintro (hmem | rfl)
      · exact hmem
      · cases hk

theorem Known.addSlave (h : Known ks s) (api n : Str) :
    Known (ks ++ [.slave api n]) { s with
      slaveIdSet := Function.update s.slaveIdSet api (n :: s.slaveIdSet api) } := by
  refine ⟨?_, ?_, h.zero, h.pos⟩
  · intro m
    rw [lookup_other ks rfl]
    exact h.idMap m
  · intro api' m
    rw [List.mem_append, List.mem_singleton, Kind.slave.injEq, ← h.slaves]
    dsimp only
    by_cases hapi : api' = api
    · subst hapi
      rw [Function.update_self, List.mem_cons]
      constructor
      · rintro (hm | hm)
        · exact .inr ⟨rfl, hm⟩
        · exact .inl hm
      · rintro (hm | hm)
        · exact .inr hm
        · exact .inl hm.2
    · rw [Function.update_of_ne hapi]
      constructor
      · intro hm
        exact .inl hm
      · rintro (hm | hm)
        · exact hm
        · exact absurd hm.1 hapi

/-- A name that can be used has a positive number. -/
theorem Known.lookup_true (h : Known ks s) : lookup ks n = some true ↔ ¬(s.idMap n).getD 0 < 1 := by
  rw [h.idMap]
  cases s.idMap n with
  | none =>
    constructor
    · intro h
      cases h
    · intro h
      exact absurd (by decide) h
  | some v =>
    rw [Option.map_some, Option.some.injEq, decide_eq_true_iff, Option.getD_some, Int.not_lt]
    rfl

theorem Known.lookup_none (h : Known ks s) : lookup ks n = none ↔ ¬(s.idMap n).isSome := by
  rw [h.idMap, Option.map_eq_none_iff, Option.not_isSome_iff_eq_none]

/-- The number of a name is positive, and only the free slot is new. -/
theorem giveId_spec (hz : Numbering.slot s.idRes 0 = []) (hpos : 0 < s.id) (hn : n ≠ []) :
    0 < (giveId s a n).1 ∧ (giveId s a n).2.1.slaveIdSet = s.slaveIdSet ∧
      Numbering.slot (giveId s a n).2.1.idRes 0 = [] ∧ 0 < (giveId s a n).2.1.id := by
  unfold giveId
  split
  · rename_i i hf
    refine ⟨?_, rfl, hz, hpos⟩
    rcases Nat.eq_zero_or_pos i with rfl | hi
    · exact absurd ((Numbering.slot_find hf).symm.trans hz) hn
    · exact Int.natCast_pos.2 hi
  · have hnext : 0 < Numbering.next s.idRes s.id :=
      Nat.lt_of_lt_of_le hpos (Numbering.le_skip _ _ _)
    refine ⟨Int.natCast_pos.2 hnext, rfl, ?_, hnext⟩
    exact (Numbering.slot_put_ne _ _ (Nat.ne_of_lt hnext)).trans hz

/-- Where a step is taken, the names allow it. -/
theorem Known.assignStep_ok (h : Known ks s) (hr : assignStep s a = .ok (s', a')) :
    ∃ k, a.kind = some k ∧ Admissible ks k ∧ Known (ks ++ [k]) s' := by
  rcases a.cases with ⟨hpos, hk, -⟩ | ⟨hpos, hp, -⟩ | ⟨p, hp, hcase⟩
  · have hs : assignStep s a = .ok (s, a) := if_pos hpos
    cases hs.symm.trans hr
    exact ⟨.plain, hk, trivial, h.plain⟩
  · unfold assignStep at hr
    rw [if_neg hpos, atPos_of_none hpos hp] at hr
    cases hr
  · rcases hcase with ⟨hs, hk, -⟩ | ⟨hs, hauto, hk, -⟩ | ⟨hs, hauto, hk, -⟩
    · rw [assignStep_slave hs hp] at hr
      split at hr
      · cases hr
      · rename_i hid
        split at hr
        · cases hr
        · rename_i hno
          cases hr
          have hnew : Kind.slave a.info.apiName p.text ∉ ks := fun hm => hno ((h.slaves _ _).2 hm)
          exact ⟨_, hk, ⟨h.lookup_true.2 hid, hnew⟩, h.addSlave _ _⟩
    · rw [assignStep_auto hs hp hauto] at hr
      split at hr
      · cases hr
      · rename_i hno
        cases hr
        obtain ⟨hv, hslaves, hz, hpos⟩ := giveId_spec (a := a) h.zero h.pos p.text_ne
        have hcreated : (Kind.auto p.text).created =
            some (p.text, decide (0 < (giveId s a p.text).1)) := by
          rw [decide_eq_true hv]
          rfl
        exact ⟨_, hk, h.lookup_none.2 hno, h.create hcreated rfl hslaves hz hpos⟩
    · rw [assignStep_fixed hs hp hauto] at hr
      cases hr
      exact ⟨_, hk, trivial, h.create rfl rfl rfl h.zero h.pos⟩

/-- Where the names allow it, a step is taken. -/
theorem Known.assignStep_isOk (h : Known ks s) (hk : a.kind = some k) (hadm : Admissible ks k) :
    ∃ r, assignStep s a = .ok r := by
  rcases a.cases with ⟨hpos, -, -⟩ | ⟨hpos, hp, hno⟩ | ⟨p, hp, hcase⟩
  · exact ⟨(s, a), if_pos hpos⟩
  · cases hno.symm.trans hk
  · rcases hcase with ⟨hs, hk', -⟩ | ⟨hs, hauto, hk', -⟩ | ⟨hs, hauto, -, -⟩
    · cases hk.symm.trans hk'
      obtain ⟨hlook, hno⟩ := hadm
      rw [assignStep_slave hs hp, if_neg (h.lookup_true.1 hlook),
        if_neg fun hm => hno ((h.slaves _ _).1 hm)]
      exact ⟨_, rfl⟩
    · cases hk.symm.trans hk'
      have hnone : ¬(s.idMap p.text).isSome = true := h.lookup_none.1 hadm
      rw [assignStep_auto hs hp hauto, if_neg hnone]
      exact ⟨_, rfl⟩
    · exact ⟨_, assignStep_fixed hs hp hauto⟩

/-- The second loop ends exactly where the names are in order. -/
theorem Known.assignLoop_ok (h : Known ks s) (hr : assignLoop s apis = .ok (s', out)) :
    ∃ ks', apis.map StaticApi.kind = ks'.map some ∧ AllAdmissible ks ks' := by
  induction apis generalizing ks s s' out with
  | nil => exact ⟨[], rfl, trivial⟩
  | cons a apis ih =>
    obtain ⟨⟨s₁, a₁⟩, h₁, hr⟩ := bind_eq_ok.1 hr
    obtain ⟨⟨s₂, out₂⟩, h₂, -⟩ := bind_eq_ok.1 hr
    obtain ⟨k, hk, hadm, hknown⟩ := h.assignStep_ok h₁
    obtain ⟨ks', hks, hall⟩ := ih hknown h₂
    refine ⟨k :: ks', ?_, hadm, hall⟩
    rw [List.map_cons, List.map_cons, hk, hks]

theorem Known.assignLoop_isOk (h : Known ks s) (hk : apis.map StaticApi.kind = ks'.map some)
    (hall : AllAdmissible ks ks') : ∃ r, assignLoop s apis = .ok r := by
  induction apis generalizing ks s ks' with
  | nil => exact ⟨(s, []), rfl⟩
  | cons a apis ih =>
    cases ks' with
    | nil => cases hk
    | cons k ks' =>
      obtain ⟨hk, hks⟩ := List.cons.inj hk
      obtain ⟨hadm, hall⟩ := hall
      obtain ⟨⟨s₁, a₁⟩, h₁⟩ := h.assignStep_isOk hk hadm
      obtain ⟨k', hk', -, hknown⟩ := h.assignStep_ok h₁
      cases hk.symm.trans hk'
      obtain ⟨⟨s₂, out⟩, h₂⟩ := ih hknown hks hall
      refine ⟨(s₂, a₁ :: out), ?_⟩
      exact bind_eq_ok.2 ⟨_, h₁, bind_eq_ok.2 ⟨_, h₂, rfl⟩⟩

end Step

/-- An API that is the same up to the number of the identifier that it creates. -/
def Revalued (a a' : StaticApi) : Prop := a' = a ∨ a.auto ≠ none ∧ ∃ v, a' = a.setValue v

section Numbers
variable {s s' : Loop} {a a' a'' : StaticApi} {p : Parameter} {v w : Int}

theorem idParam_setValue (h : a.idParam = some p) :
    (a.setValue v).idParam = some { p with value := some v } := by
  obtain ⟨hpos, hp⟩ := Option.ite_none_left_eq_some.1 h
  unfold StaticApi.idParam StaticApi.setValue
  rw [if_neg hpos, List.getElem?_modify_eq, hp]
  rfl

theorem auto_setValue (h : a.auto = some p) :
    (a.setValue v).auto = some { p with value := some v } := by
  obtain ⟨hs, hp, hauto⟩ := auto_eq_some.1 h
  exact auto_eq_some.2 ⟨hs, idParam_setValue hp, hauto⟩

theorem setValue_setValue (a : StaticApi) (v w : Int) :
    (a.setValue v).setValue w = a.setValue w := by
  unfold StaticApi.setValue
  dsimp only
  rw [List.modify_modify_eq]
  rfl

theorem setValue_self (h : a.auto = some p) (hv : p.value = some v) : a.setValue v = a := by
  obtain ⟨-, hp, -⟩ := auto_eq_some.1 h
  obtain ⟨-, hp⟩ := Option.ite_none_left_eq_some.1 hp
  obtain ⟨info, params, line⟩ := a
  unfold StaticApi.setValue
  congr 1
  apply List.ext_getElem?
  intro i
  by_cases hi : info.idPos.toNat = i
  · subst hi
    rw [List.getElem?_modify_eq]
    change Option.map _ params[info.idPos.toNat]? = _
    rw [hp, Option.map_some, ← hv]
  · exact List.getElem?_modify_ne _ params hi

theorem Revalued.refl (a : StaticApi) : Revalued a a := .inl rfl

theorem Revalued.auto_ne (h : Revalued a a') : a.auto ≠ none ↔ a'.auto ≠ none := by
  rcases h with rfl | ⟨ha, v, rfl⟩
  · exact Iff.rfl
  · obtain ⟨p, hp⟩ := Option.ne_none_iff_exists'.1 ha
    rw [hp, auto_setValue hp]
    exact iff_of_true (Option.some_ne_none _) (Option.some_ne_none _)

theorem Revalued.trans (h : Revalued a a') (h' : Revalued a' a'') : Revalued a a'' := by
  rcases h' with rfl | ⟨ha', w, rfl⟩
  · exact h
  · refine .inr ⟨h.auto_ne.2 ha', w, ?_⟩
    rcases h with rfl | ⟨-, v, rfl⟩
    · rfl
    · exact setValue_setValue a v w

/-- The numbers do not change what is done to the names. -/
theorem Revalued.kind_eq (h : Revalued a a') : a'.kind = a.kind := by
  rcases h with rfl | ⟨ha, v, rfl⟩
  · rfl
  · obtain ⟨p, hp⟩ := Option.ne_none_iff_exists'.1 ha
    obtain ⟨hs, hparam, hauto⟩ := auto_eq_some.1 hp
    have hkind (b : StaticApi) (q : Parameter) (hb : ¬b.info.slave) (hq : b.idParam = some q)
        (hqa : q.isAuto) : b.kind = some (.auto q.text) := by
      unfold StaticApi.kind
      rw [if_neg (atPos_of_idParam hq).1, hq, Option.map_some, if_neg hb, if_pos hqa]
    have hset := hkind (a.setValue v) { p with value := some v } hs (idParam_setValue hparam) hauto
    exact hset.trans (hkind a p hs hparam hauto).symm

/-- The number that an API has already is the one to set. -/
theorem Revalued.setValue (h : Revalued a a') (hp : a'.auto = some p) (hv : p.value = some v) :
    a.setValue v = a' := by
  have hself := setValue_self hp hv
  rcases h with rfl | ⟨-, w, rfl⟩
  · exact hself
  · rw [← hself, setValue_setValue]

/-- A step gives the identifier its number. -/
theorem assignStep_number (hr : assignStep s a = .ok (s', a')) (hid : 0 < s.id) :
    Revalued a a' ∧ 0 < s'.id ∧
    ((a.auto = none ∧ a'.auto = none ∧ s'.id = s.id ∧ s'.idRes = s.idRes) ∨
      ∃ p p', a.auto = some p ∧ a'.auto = some p' ∧ p'.text = p.text ∧
        Numbering.give ⟨s.id, s.idRes⟩ p.request = (⟨s'.id, s'.idRes⟩, p'.reserved)) := by
  rcases a.cases with ⟨hpos, -, ha⟩ | ⟨hpos, hp, -⟩ | ⟨p, hp, hcase⟩
  · have hs : assignStep s a = .ok (s, a) := if_pos hpos
    cases hs.symm.trans hr
    exact ⟨.refl a, hid, .inl ⟨ha, ha, rfl, rfl⟩⟩
  · unfold assignStep at hr
    rw [if_neg hpos, atPos_of_none hpos hp] at hr
    cases hr
  · rcases hcase with ⟨hs, -, ha⟩ | ⟨hs, hauto, -, ha⟩ | ⟨hs, hauto, -, ha⟩
    · rw [assignStep_slave hs hp] at hr
      split at hr
      · cases hr
      · split at hr
        · cases hr
        · cases hr
          exact ⟨.refl a, hid, .inl ⟨ha, ha, rfl, rfl⟩⟩
    · rw [assignStep_auto hs hp hauto] at hr
      split at hr
      · cases hr
      · cases hr
        unfold giveId
        cases hf : Numbering.find s.idRes p.text with
        | some i =>
          refine ⟨.refl a, hid, .inr ⟨p, p, ha, ha, rfl, ?_⟩⟩
          unfold Numbering.give Parameter.request
          dsimp only
          rw [hf]
        | none =>
          have hnext : 0 < Numbering.next s.idRes s.id :=
            Nat.lt_of_lt_of_le hid (Numbering.le_skip _ _ _)
          have hset := auto_setValue (v := (Numbering.next s.idRes s.id : Int)) ha
          refine ⟨.inr ⟨ha ▸ Option.some_ne_none p, _, rfl⟩, hnext, .inr ⟨p, _, ha, hset, rfl, ?_⟩⟩
          have hres : ({ p with value := some (Numbering.next s.idRes s.id : Int) }).reserved =
              some (Numbering.next s.idRes s.id) := reserved_eq_some.2 ⟨rfl, hnext⟩
          unfold Numbering.give Parameter.request
          dsimp only
          rw [hf, hres]
    · rw [assignStep_fixed hs hp hauto] at hr
      cases hr
      exact ⟨.refl a, hid, .inl ⟨ha, ha, rfl, rfl⟩⟩

/-- The second loop numbers the identifiers that are created. -/
theorem assignLoop_number (hr : assignLoop s apis = .ok (s', out)) (hid : 0 < s.id) :
    List.Forall₂ Revalued apis out ∧
      (autos out).map (·.text) = (autos apis).map (·.text) ∧
      Numbering.giveAll ⟨s.id, s.idRes⟩ ((autos apis).map (·.request)) =
        (⟨s'.id, s'.idRes⟩, (autos out).map (·.reserved)) := by
  induction apis generalizing s s' out with
  | nil =>
    cases hr
    exact ⟨.nil, rfl, rfl⟩
  | cons a apis ih =>
    obtain ⟨⟨s₁, a₁⟩, h₁, hr⟩ := bind_eq_ok.1 hr
    obtain ⟨⟨s₂, out₂⟩, h₂, hr⟩ := bind_eq_ok.1 hr
    cases hr
    obtain ⟨hrev, hid₁, hnum⟩ := assignStep_number h₁ hid
    obtain ⟨hall, htext, hgive⟩ := ih h₂ hid₁
    refine ⟨.cons hrev hall, ?_⟩
    unfold autos at htext hgive ⊢
    rcases hnum with ⟨ha, ha₁, hid', hres'⟩ | ⟨p, p', ha, ha₁, ht, hg⟩
    · rw [List.filterMap_cons_none ha, List.filterMap_cons_none ha₁]
      rw [hid', hres'] at hgive
      exact ⟨htext, hgive⟩
    · rw [List.filterMap_cons_some ha, List.filterMap_cons_some ha₁, List.map_cons, List.map_cons,
        List.map_cons, List.map_cons, ht, htext, Numbering.giveAll, hg, hgive]
      exact ⟨rfl, rfl⟩

end Numbers

end AspKernel.Itronx
