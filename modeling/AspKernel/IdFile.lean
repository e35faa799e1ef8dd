import AspKernel.Assigned
import Mathlib.Data.List.TakeWhile

namespace AspKernel.Itronx
set_option autoImplicit true

/-- The check of `cfg1_out` on the name of an object. -/
def validObjectId : Str → Bool
  | [] => false
  | c :: l => (c.isAlpha || c = '_') && l.all fun c => c.isAlphanum || c = '_'

/-- A name and a number as they stand in the file. -/
def idLine (e : Str × Int) : Str := e.1 ++ '\t' :: showLong e.2

section Read
variable {name l : Str} {c : Char} {v : Int} {es : List (Str × Int)} {idMap : List IdEntry}

theorem isSpace_of_alphanum (h : (c.isAlphanum || c = '_') = true) : isSpace c = false := by
  rw [Bool.eq_false_iff]
  intro hs
  unfold isSpace at hs
  have hm := of_decide_eq_true hs
  simp only [List.mem_cons, List.not_mem_nil, or_false] at hm
  rcases hm with rfl | rfl | rfl | rfl | rfl | rfl
  · exact absurd h (by decide)
  · exact absurd h (by decide)
  · exact absurd h (by decide)
  · exact absurd h (by decide)
  · exact absurd h (by decide)
  · exact absurd h (by decide)

theorem isSpace_of_valid (h : validObjectId name) : ∀ c ∈ name, isSpace c = false := by
  cases name with
  | nil => cases h
  | cons c l =>
    obtain ⟨hc, hl⟩ := Bool.and_eq_true_iff.1 h
    intro d hd
    rcases List.mem_cons.1 hd with rfl | hd
    · apply isSpace_of_alphanum
      unfold Char.isAlphanum
      rcases Bool.or_eq_true_iff.1 hc with hc | hc
      · rw [hc]
        rfl
      · rw [hc, Bool.or_true]
    · exact isSpace_of_alphanum (List.all_eq_true.1 hl d hd)

theorem digitChar_spec : ∀ d < 10, Numeral.digitVal 10 (Nat.digitChar d) = some d ∧
    (Nat.digitChar d).isDigit = true ∧ isSpace (Nat.digitChar d) = false := by
  decide

theorem showLong_mem (hv : 0 < v) (hc : c ∈ showLong v) : ∃ d < 10, c = Nat.digitChar d := by
  unfold showLong at hc
  rw [if_neg (Int.not_lt.2 hv.le)] at hc
  exact Numeral.write_mem (by decide) hc

theorem readName_idLine (h : validObjectId name) :
    readName (idLine (name, v)) = some (name, '\t' :: showLong v) := by
  have hspace := isSpace_of_valid h
  have hne : name ≠ [] := by
    rintro rfl
    cases h
  have hall : ∀ c ∈ name, (!isSpace c) = true := fun c hc => by
    rw [hspace c hc]
    rfl
  have hdrop : (name ++ '\t' :: showLong v).dropWhile isSpace = name ++ '\t' :: showLong v := by
    cases name with
    | nil => exact absurd rfl hne
    | cons c l =>
      exact List.dropWhile_cons_of_neg (by rw [hspace c List.mem_cons_self]; exact Bool.false_ne_true)
  have htake : (name ++ '\t' :: showLong v).takeWhile (!isSpace ·) = name := by
    rw [List.takeWhile_append_of_pos hall]
    exact List.append_nil name
  unfold readName idLine
  dsimp only
  rw [hdrop, htake, if_neg hne, List.dropWhile_append_of_pos hall]
  rfl

/-- A positive number is read back. -/
theorem readLong_showLong (hv : 0 < v) (hmax : v ≤ LONG_MAX) :
    readLong ('\t' :: showLong v) = some v := by
  have hdigit : (showLong v).takeWhile Char.isDigit = showLong v := by
    apply List.takeWhile_eq_self_iff.2
    intro c hc
    obtain ⟨d, hd, rfl⟩ := showLong_mem hv hc
    exact (digitChar_spec d hd).2.1
  have hread : Numeral.read 10 ((showLong v).takeWhile Char.isDigit) = some v.natAbs := by
    rw [hdigit]
    unfold showLong
    rw [if_neg (Int.not_lt.2 hv.le)]
    exact Numeral.readDigits_write (by decide) (fun d hd => (digitChar_spec d hd).1) (by decide) 0 _
  have hdrop : ('\t' :: showLong v).dropWhile isSpace = showLong v := by
    rw [List.dropWhile_cons_of_pos (by decide)]
    cases hl : showLong v with
    | nil => rfl
    | cons c l =>
      obtain ⟨d, hd, rfl⟩ := showLong_mem hv (hl ▸ List.mem_cons_self)
      exact List.dropWhile_cons_of_neg
        (by rw [(digitChar_spec d hd).2.2]; exact Bool.false_ne_true)
  have hsign (s : Char) (hs : ∀ d < 10, Nat.digitChar d ≠ s) (l : Str) : showLong v ≠ s :: l := by
    intro hl
    obtain ⟨d, hd, he⟩ := showLong_mem hv (hl ▸ List.mem_cons_self)
    exact hs d hd he.symm
  unfold readLong
  dsimp only
  rw [hdrop]
  split
  · rename_i hl
    exact absurd hl (hsign '-' (by decide) _)
  · rename_i hl
    exact absurd hl (hsign '+' (by decide) _)
  · rw [hread, Option.map_some, Option.bind_some, if_pos]
    · rw [Int.natAbs_of_nonneg hv.le]
    · rw [Int.natAbs_of_nonneg hv.le]
      refine ⟨?_, hmax⟩
      have : 0 ≤ LONG_MAX := by decide
      omega

theorem newline_not_mem (h : validObjectId name) (hv : 0 < v) : '\n' ∉ idLine (name, v) := by
  intro hm
  rcases List.mem_append.1 hm with hm | hm
  · have hspace := isSpace_of_valid h _ hm
    cases hspace
  · rcases List.mem_cons.1 hm with hm | hm
    · cases hm
    · obtain ⟨d, hd, he⟩ := showLong_mem hv hm
      have hspace := (digitChar_spec d hd).2.2
      rw [← he] at hspace
      cases hspace

/-- The lines that are written are read back. -/
theorem readIds_idLines (file : Str) (idMap : List IdEntry)
    (h : ∀ e ∈ es, validObjectId e.1 ∧ 0 < e.2 ∧ e.2 ≤ LONG_MAX)
    (hnd : (idMap.map (·.name) ++ es.map (·.1)).Nodup) :
    readIds file idMap ((es.flatMap fun e => idLine e ++ ['\n']).splitOn '\n') =
      .ok (idMap ++ es.map fun e => ⟨e.1, e.2, false⟩) := by
  induction es generalizing idMap with
  | nil =>
    rw [List.flatMap_nil, List.splitOn_nil, List.map_nil, List.append_nil]
    exact if_pos (.inl rfl)
  | cons e es ih =>
    obtain ⟨name, v⟩ := e
    obtain ⟨hvalid, hv, hmax⟩ := h _ List.mem_cons_self
    have hsplit : (((name, v) :: es).flatMap fun e => idLine e ++ ['\n']).splitOn '\n' =
        idLine (name, v) :: (es.flatMap fun e => idLine e ++ ['\n']).splitOn '\n' := by
      rw [List.flatMap_cons, List.append_assoc]
      exact List.splitOn_append_cons_self_of_not_mem (newline_not_mem hvalid hv) _
    have hline : ¬(idLine (name, v) = [] ∨ idLine (name, v) = ['\r']) := by
      have hlen : 2 ≤ (idLine (name, v)).length := by
        unfold idLine
        rw [List.length_append, List.length_cons]
        cases name with
        | nil => cases hvalid
        | cons c l =>
          rw [List.length_cons]
          omega
      rintro (he | he)
      · rw [he] at hlen
        cases hlen
      · rw [he] at hlen
        exact absurd hlen (by decide)
    rw [List.map_cons, List.nodup_middle, List.nodup_cons] at hnd
    have hfresh : ¬idMap.any (·.name = name) = true := by
      intro hany
      obtain ⟨e, he, hname⟩ := List.any_eq_true.1 hany
      have hmem : e.name ∈ idMap.map (·.name) := List.mem_map_of_mem he
      rw [of_decide_eq_true hname] at hmem
      exact hnd.1 (List.mem_append_left _ hmem)
    rw [hsplit, readIds, if_neg hline, readName_idLine hvalid]
    dsimp only
    rw [readLong_showLong hv hmax]
    dsimp only
    rw [if_neg hfresh, ih _ fun e he => h e (List.mem_cons_of_mem _ he)]
    · rw [List.append_assoc]
      rfl
    · rw [List.map_append, List.append_assoc]
      exact List.nodup_middle.2 (List.nodup_cons.2 hnd)

end Read

/-- The number that the file has for a name. -/
def valueOf (idMap : List IdEntry) (name : Str) : Option Int :=
  (idMap.find? (·.name = name)).map (·.value)

/-- The file has the positive numbers of all the identifiers. -/
def Lists (idMap : List IdEntry) (apis : List StaticApi) : Prop :=
  ∀ p ∈ autos apis, ∃ v, valueOf idMap p.text = some v ∧ p.value = some v ∧ 0 < v

section Input
variable {idMap idMap' : List IdEntry} {a a' : StaticApi} {apis out : List StaticApi} {p : Parameter}

/-- What the file says is not changed where lines are marked as used. -/
theorem valueOf_mark (idMap : List IdEntry) (m n : Str) :
    valueOf (idMap.map fun e => if e.name = m then { e with used := true } else e) n =
      valueOf idMap n := by
  have hname (e : IdEntry) : (if e.name = m then { e with used := true } else e).name = e.name := by
    split
    · rfl
    · rfl
  have hvalue (e : IdEntry) : (if e.name = m then { e with used := true } else e).value = e.value := by
    split
    · rfl
    · rfl
  unfold valueOf
  rw [List.find?_map, Option.map_map]
  congr 1
  · exact funext hvalue
  · congr 1
    funext e
    exact congrArg (fun x => decide (x = n)) (hname e)

theorem idParam_of_atPos (hpos : ¬a.info.idPos < 0) (h : a.atPos a.info.idPos = .ok p) :
    a.idParam = some p := by
  cases hp : a.idParam with
  | none => cases (atPos_of_none hpos hp).symm.trans h
  | some q =>
    cases (atPos_of_idParam hp).2.symm.trans h
    rfl

/-- Which identifier the loops over the files look at. -/
theorem auto_of_atPos (hpos : ¬a.info.idPos < 0) (h : a.atPos a.info.idPos = .ok p) :
    (!a.info.slave && p.isAuto) = true ↔ a.auto = some p := by
  rw [auto_eq_some, Bool.and_eq_true, Bool.not_eq_true', Bool.not_eq_true]
  constructor
  · rintro ⟨hs, hauto⟩
    exact ⟨hs, idParam_of_atPos hpos h, hauto⟩
  · rintro ⟨hs, -, hauto⟩
    exact ⟨hs, hauto⟩

theorem inputStep_ok (h : inputStep idMap a = .ok (idMap', a')) :
    Revalued a a' ∧ ∀ n, valueOf idMap' n = valueOf idMap n := by
  unfold inputStep at h
  split at h
  · cases h
    exact ⟨.refl a, fun _ => rfl⟩
  · rename_i hpos
    obtain ⟨p, hp, h⟩ := bind_eq_ok.1 h
    split at h
    · rename_i hauto
      have ha := (auto_of_atPos hpos hp).1 hauto
      split at h
      · cases h
        exact ⟨.refl a, fun _ => rfl⟩
      · split at h
        · cases h
          exact ⟨.inr ⟨ha ▸ Option.some_ne_none p, _, rfl⟩, valueOf_mark idMap p.text⟩
        · cases h
          exact ⟨.refl a, fun _ => rfl⟩
    · cases h
      exact ⟨.refl a, fun _ => rfl⟩

theorem inputLoop_ok (h : inputLoop idMap apis = .ok (idMap', out)) :
    List.Forall₂ Revalued apis out ∧ ∀ n, valueOf idMap' n = valueOf idMap n := by
  induction apis generalizing idMap idMap' out with
  | nil =>
    cases h
    exact ⟨.nil, fun _ => rfl⟩
  | cons a apis ih =>
    obtain ⟨⟨idMap₁, a₁⟩, h₁, h⟩ := bind_eq_ok.1 h
    obtain ⟨⟨idMap₂, out₂⟩, h₂, h⟩ := bind_eq_ok.1 h
    cases h
    obtain ⟨hrev, hval⟩ := inputStep_ok h₁
    obtain ⟨hall, hval'⟩ := ih h₂
    exact ⟨.cons hrev hall, fun n => (hval' n).trans (hval n)⟩

theorem Revalued.text_eq (h : Revalued a a') (ha : a.auto = some p) (ha' : a'.auto = some q) :
    q.text = p.text := by
  have hk := h.kind_eq
  rw [kind_of_auto ha, kind_of_auto ha'] at hk
  exact Kind.auto.inj (Option.some.inj hk)

theorem Revalued.map_text (h : List.Forall₂ Revalued apis out) :
    (autos out).map (·.text) = (autos apis).map (·.text) := by
  induction h with
  | nil => rfl
  | @cons a b apis out hab _ ih =>
    unfold autos at ih ⊢
    cases ha : a.auto with
    | none =>
      have hb : b.auto = none := by
        by_contra hne
        exact hab.auto_ne.2 hne ha
      rw [List.filterMap_cons_none ha, List.filterMap_cons_none hb, ih]
    | some p =>
      obtain ⟨q, hb⟩ := Option.ne_none_iff_exists'.1 (hab.auto_ne.1 (ha ▸ Option.some_ne_none p))
      rw [List.filterMap_cons_some ha, List.filterMap_cons_some hb, List.map_cons, List.map_cons,
        hab.text_eq ha hb, ih]

theorem inputStep_other (hk : a.kind ≠ none) (ha : a.auto = none) :
    inputStep idMap a = .ok (idMap, a) := by
  unfold inputStep
  by_cases hpos : a.info.idPos < 0
  · exact if_pos hpos
  · rw [if_neg hpos]
    cases hp : a.idParam with
    | none =>
      unfold StaticApi.kind at hk
      rw [if_neg hpos, hp] at hk
      exact absurd rfl hk
    | some p =>
      have hat := (atPos_of_idParam hp).2
      rw [hat]
      apply if_neg
      intro hauto
      cases ha.symm.trans ((auto_of_atPos hpos hat).1 hauto)

theorem inputStep_auto (ha : a.auto = some p) (hv : valueOf idMap p.text = some v) (hpos : 0 < v) :
    ∃ idMap', inputStep idMap a = .ok (idMap', a.setValue v) := by
  obtain ⟨hidx, hat⟩ := atPos_of_idParam (auto_eq_some.1 ha).2.1
  obtain ⟨e, he, rfl⟩ := Option.map_eq_some_iff.1 hv
  unfold inputStep
  rw [if_neg hidx, hat]
  change ∃ idMap', (if (!a.info.slave && p.isAuto) = true then _ else _) = _
  rw [if_pos ((auto_of_atPos hidx hat).2 ha), he]
  dsimp only
  rw [if_pos hpos]
  exact ⟨_, rfl⟩

/-- The numbers that the file has are set. -/
theorem inputLoop_lists (h : List.Forall₂ Revalued apis out) (hk : ∀ a ∈ apis, a.kind ≠ none)
    (hl : Lists idMap out) : ∃ idMap', inputLoop idMap apis = .ok (idMap', out) := by
  induction h generalizing idMap with
  | nil => exact ⟨idMap, rfl⟩
  | @cons a b apis out hab _ ih =>
    have hstep : ∃ idMap₁, inputStep idMap a = .ok (idMap₁, b) := by
      cases ha : a.auto with
      | none =>
        have hba : b = a := by
          rcases hab with hba | ⟨hne, -⟩
          · exact hba
          · exact absurd ha hne
        rw [hba]
        exact ⟨idMap, inputStep_other (hk a List.mem_cons_self) ha⟩
      | some p =>
        obtain ⟨q, hb⟩ :=
          Option.ne_none_iff_exists'.1 (hab.auto_ne.1 (ha ▸ Option.some_ne_none p))
        have hq : q ∈ autos (b :: out) := List.mem_filterMap.2 ⟨b, List.mem_cons_self, hb⟩
        obtain ⟨v, hval, hqv, hpos⟩ := hl q hq
        rw [hab.text_eq ha hb] at hval
        rw [← hab.setValue hb hqv]
        exact inputStep_auto ha hval hpos
    obtain ⟨idMap₁, h₁⟩ := hstep
    have hl₁ : Lists idMap₁ out := by
      intro p hp
      obtain ⟨c, hc, hcp⟩ := List.mem_filterMap.1 hp
      rw [(inputStep_ok h₁).2]
      exact hl p (List.mem_filterMap.2 ⟨c, List.mem_cons_of_mem _ hc, hcp⟩)
    obtain ⟨idMap₂, h₂⟩ := ih (fun c hc => hk c (List.mem_cons_of_mem _ hc)) hl₁
    exact ⟨idMap₂, bind_eq_ok.2 ⟨_, h₁, bind_eq_ok.2 ⟨_, h₂, rfl⟩⟩⟩

end Input

section Types
variable {threshold : Nat} {log log' : List Diag} {apis out : List StaticApi}
  {idMap idMap' : List IdEntry} {m m' : StaticApiMap}

theorem assignId_log (h : assignId threshold log apis = .ok (out, log')) : ∃ l, log' = log ++ l := by
  obtain ⟨idRes, -, h⟩ := bind_eq_ok.1 h
  obtain ⟨⟨s, out₂⟩, -, h⟩ := bind_eq_ok.1 h
  dsimp only at h
  split at h
  · obtain ⟨log₃, h₃, h⟩ := bind_eq_ok.1 h
    cases h
    unfold error at h₃
    split at h₃
    · cases h₃
    · exact ⟨_, (Except.ok.inj h₃).symm⟩
  · cases h
    exact ⟨[], (List.append_nil log).symm⟩

/-- The static APIs of a type with the numbers that they got, in a run that reported nothing. -/
structure Settled (threshold : Nat) (log : List Diag) (apis out : List StaticApi) : Prop where
  same : List.Forall₂ Revalued apis out
  kinds : ∀ a ∈ apis, a.kind ≠ none
  again : assignId threshold log out = .ok (out, log)
  values : ∀ p ∈ autos out, ∃ i : Nat, p.value = some (i : Int) ∧ 0 < i ∧ i ≤ apis.length

theorem assignId_kinds (h : assignId threshold log apis = .ok (out, log')) :
    ∀ a ∈ apis, a.kind ≠ none := by
  obtain ⟨idRes, s, h₁, h₂, -⟩ := assignId_ok h
  obtain ⟨ks, hk, -⟩ := (known_start (reserved_ready h₁).1).assignLoop_ok h₂
  intro a ha hnone
  have hm : a.kind ∈ ks.map some := hk ▸ List.mem_map_of_mem ha
  rw [hnone] at hm
  obtain ⟨k, -, hk⟩ := List.mem_map.1 hm
  cases hk

theorem assignId_settled (h : assignId threshold log apis = .ok (out, log)) :
    Settled threshold log apis out := by
  obtain ⟨hsame, ⟨ids, hvals, hperm, -⟩, -⟩ := assignId_assigned h
  refine ⟨hsame, assignId_kinds h, assignId_again h, ?_⟩
  intro p hp
  have hm : p.value ∈ ids.map fun i : Nat => some (i : Int) := hvals ▸ List.mem_map_of_mem hp
  obtain ⟨i, hi, he⟩ := List.mem_map.1 hm
  have hle := List.mem_range'_1.1 (hperm.mem_iff.1 hi)
  have hlen : (autos apis).length ≤ apis.length := List.length_filterMap_le _ _
  exact ⟨i, he.symm, by omega, by omega⟩

theorem Revalued.trans_all {apis mid out : List StaticApi} (h : List.Forall₂ Revalued apis mid)
    (h' : List.Forall₂ Revalued mid out) : List.Forall₂ Revalued apis out := by
  induction h generalizing out with
  | nil => exact h'
  | cons hab _ ih =>
    cases h' with
    | cons hbc h' => exact .cons (hab.trans hbc) (ih h')

/-- The numbers that a file has reserved before do not matter. -/
theorem Settled.of_revalued {mid : List StaticApi} (hrev : List.Forall₂ Revalued apis mid)
    (h : Settled threshold log mid out) : Settled threshold log apis out := by
  refine ⟨Revalued.trans_all hrev h.same, ?_, h.again, ?_⟩
  · intro a ha hnone
    have hm : a.kind ∈ mid.map StaticApi.kind := by
      rw [Revalued.map_kind hrev]
      exact List.mem_map_of_mem ha
    obtain ⟨b, hb, he⟩ := List.mem_map.1 hm
    exact h.kinds b hb (he.trans hnone)
  · rw [hrev.length_eq]
    exact h.values

/-- The types of objects, each with the numbers that it got. -/
def AllSettled (threshold : Nat) (log : List Diag) (m m' : StaticApiMap) : Prop :=
  List.Forall₂ (fun x y => y.1 = x.1 ∧ Settled threshold log x.2 y.2) m m'

theorem assignTypes_log (h : assignTypes threshold log m = .ok (m', log')) :
    ∃ l, log' = log ++ l := by
  induction m generalizing log m' with
  | nil =>
    cases h
    exact ⟨[], (List.append_nil _).symm⟩
  | cons x m ih =>
    obtain ⟨⟨out, log₁⟩, h₁, h⟩ := bind_eq_ok.1 h
    obtain ⟨⟨m₂, log₂⟩, h₂, h⟩ := bind_eq_ok.1 h
    cases h
    obtain ⟨l₁, rfl⟩ := assignId_log h₁
    obtain ⟨l₂, rfl⟩ := ih h₂
    exact ⟨l₁ ++ l₂, List.append_assoc _ l₁ l₂⟩

theorem inputTypes_log (h : inputTypes threshold idMap log m = .ok (m', idMap', log')) :
    ∃ l, log' = log ++ l := by
  induction m generalizing idMap log m' with
  | nil =>
    cases h
    exact ⟨[], (List.append_nil _).symm⟩
  | cons x m ih =>
    obtain ⟨⟨idMap₁, mid⟩, -, h⟩ := bind_eq_ok.1 h
    obtain ⟨⟨out, log₁⟩, h₁, h⟩ := bind_eq_ok.1 h
    obtain ⟨⟨m₂, idMap₂, log₂⟩, h₂, h⟩ := bind_eq_ok.1 h
    cases h
    obtain ⟨l₁, rfl⟩ := assignId_log h₁
    obtain ⟨l₂, rfl⟩ := ih h₂
    exact ⟨l₁ ++ l₂, List.append_assoc _ l₁ l₂⟩

/-- Nothing was reported on the way where nothing is in the end. -/
theorem log_eq_of_append {log l₁ l₂ : List Diag} (h : log = log ++ l₁ ++ l₂) : log ++ l₁ = log := by
  rw [List.append_assoc] at h
  have hnil := List.self_eq_append_right.1 h
  rw [(List.append_eq_nil_iff.1 hnil).1, List.append_nil]

theorem assignTypes_settled (h : assignTypes threshold log m = .ok (m', log)) :
    AllSettled threshold log m m' := by
  induction m generalizing m' with
  | nil =>
    cases h
    exact .nil
  | cons x m ih =>
    obtain ⟨⟨out, log₁⟩, h₁, h⟩ := bind_eq_ok.1 h
    obtain ⟨⟨m₂, log₂⟩, h₂, h⟩ := bind_eq_ok.1 h
    cases h
    obtain ⟨l₁, rfl⟩ := assignId_log h₁
    obtain ⟨l₂, hl₂⟩ := assignTypes_log h₂
    have hlog := log_eq_of_append hl₂
    rw [hlog] at h₁ h₂
    exact .cons ⟨rfl, assignId_settled h₁⟩ (ih h₂)

theorem inputTypes_settled (h : inputTypes threshold idMap log m = .ok (m', idMap', log)) :
    AllSettled threshold log m m' := by
  induction m generalizing idMap m' with
  | nil =>
    cases h
    exact .nil
  | cons x m ih =>
    obtain ⟨⟨idMap₁, mid⟩, h₀, h⟩ := bind_eq_ok.1 h
    obtain ⟨⟨out, log₁⟩, h₁, h⟩ := bind_eq_ok.1 h
    obtain ⟨⟨m₂, idMap₂, log₂⟩, h₂, h⟩ := bind_eq_ok.1 h
    cases h
    obtain ⟨l₁, rfl⟩ := assignId_log h₁
    obtain ⟨l₂, hl₂⟩ := inputTypes_log h₂
    have hlog := log_eq_of_append hl₂
    rw [hlog] at h₁ h₂
    exact .cons ⟨rfl, (assignId_settled h₁).of_revalued (inputLoop_ok h₀).1⟩ (ih h₂)

/-- With the numbers in the file, the same ones are given again. -/
theorem AllSettled.again (h : AllSettled threshold log m m')
    (hl : Lists idMap (m'.flatMap (·.2))) :
    ∃ idMap', inputTypes threshold idMap log m = .ok (m', idMap', log) := by
  induction h generalizing idMap with
  | nil => exact ⟨idMap, rfl⟩
  | @cons x y m m' hxy _ ih =>
    obtain ⟨type, apis⟩ := x
    obtain ⟨type', out⟩ := y
    obtain ⟨htype, hset⟩ := hxy
    subst htype
    rw [List.flatMap_cons] at hl
    have hout : Lists idMap out := fun p hp => hl p (by
      unfold autos
      rw [List.filterMap_append]
      exact List.mem_append_left _ hp)
    obtain ⟨idMap₁, h₁⟩ := inputLoop_lists hset.same hset.kinds hout
    have hrest : Lists idMap₁ (m'.flatMap (·.2)) := by
      intro p hp
      rw [(inputLoop_ok h₁).2]
      refine hl p ?_
      unfold autos
      rw [List.filterMap_append]
      exact List.mem_append_right _ hp
    obtain ⟨idMap₂, h₂⟩ := ih hrest
    refine ⟨idMap₂, ?_⟩
    exact bind_eq_ok.2 ⟨_, h₁, bind_eq_ok.2 ⟨_, hset.again, bind_eq_ok.2 ⟨_, h₂, rfl⟩⟩⟩

end Types

section File
variable {threshold : Nat} {log : List Diag} {apis : List StaticApi} {a : StaticApi} {p : Parameter}

/-- What stands in the file of an identifier. -/
def entry (p : Parameter) : Str × Int := (p.text, p.value.getD 0)

theorem writeId_other (hk : a.kind ≠ none) (ha : a.auto = none) : writeId a = .ok [] := by
  unfold writeId
  by_cases hpos : a.info.idPos < 0
  · exact if_pos hpos
  · rw [if_neg hpos]
    cases hp : a.idParam with
    | none =>
      unfold StaticApi.kind at hk
      rw [if_neg hpos, hp] at hk
      exact absurd rfl hk
    | some p =>
      have hat := (atPos_of_idParam hp).2
      rw [hat]
      apply if_neg
      intro hauto
      cases ha.symm.trans ((auto_of_atPos hpos hat).1 hauto)

theorem writeId_auto (ha : a.auto = some p) (hv : p.value = some v) :
    writeId a = .ok (idLine (entry p) ++ ['\n']) := by
  obtain ⟨hidx, hat⟩ := atPos_of_idParam (auto_eq_some.1 ha).2.1
  unfold writeId entry idLine
  rw [if_neg hidx, hat]
  change (if (!a.info.slave && p.isAuto) = true then _ else _) = _
  rw [if_pos ((auto_of_atPos hidx hat).2 ha), hv]
  rfl

theorem writeIds_eq (hk : ∀ a ∈ apis, a.kind ≠ none) (hv : ∀ p ∈ autos apis, p.value ≠ none) :
    writeIds apis = .ok (((autos apis).map entry).flatMap fun e => idLine e ++ ['\n']) := by
  induction apis with
  | nil => rfl
  | cons a apis ih =>
    have hk' : ∀ b ∈ apis, b.kind ≠ none := fun b hb => hk b (List.mem_cons_of_mem _ hb)
    unfold autos at hv ih ⊢
    cases ha : a.auto with
    | none =>
      rw [List.filterMap_cons_none ha] at hv ⊢
      exact bind_eq_ok.2 ⟨_, writeId_other (hk a List.mem_cons_self) ha,
        bind_eq_ok.2 ⟨_, ih hk' hv, rfl⟩⟩
    | some p =>
      rw [List.filterMap_cons_some ha] at hv ⊢
      obtain ⟨v, hval⟩ := Option.ne_none_iff_exists'.1 (hv p List.mem_cons_self)
      refine bind_eq_ok.2 ⟨_, writeId_auto ha hval, bind_eq_ok.2 ⟨_, ih hk' fun q hq =>
        hv q (List.mem_cons_of_mem _ hq), ?_⟩⟩
      rw [List.map_cons, List.flatMap_cons]

theorem valueOf_entries {es : List (Str × Int)} (hnd : (es.map (·.1)).Nodup) (he : e ∈ es) :
    valueOf (es.map fun e => ⟨e.1, e.2, false⟩) e.1 = some e.2 := by
  unfold valueOf
  rw [List.find?_map, Option.map_map]
  cases hf : es.find? ((fun x : IdEntry => decide (x.name = e.1)) ∘ fun e => ⟨e.1, e.2, false⟩) with
  | none =>
    have hno := List.find?_eq_none.1 hf e he
    exact absurd (decide_eq_true rfl) hno
  | some d =>
    have hd := List.mem_of_find?_eq_some hf
    have hpred := List.find?_some hf
    have hname : d.1 = e.1 := of_decide_eq_true hpred
    rw [List.inj_on_of_nodup_map hnd hd he hname]
    rfl

theorem AllSettled.revalued (h : AllSettled threshold log m m') :
    List.Forall₂ Revalued (m.flatMap (·.2)) (m'.flatMap (·.2)) :=
  List.rel_flatMap h fun _ _ hxy => hxy.2.same

theorem AllSettled.kinds (h : AllSettled threshold log m m') :
    ∀ a ∈ m'.flatMap (·.2), a.kind ≠ none := by
  induction h with
  | nil =>
    intro a ha
    cases ha
  | cons hxy _ ih =>
    intro a ha
    rw [List.flatMap_cons] at ha
    rcases List.mem_append.1 ha with ha | ha
    · exact assignId_kinds hxy.2.again a ha
    · exact ih a ha

theorem AllSettled.values (h : AllSettled threshold log m m')
    (hfit : ∀ x ∈ m, (x.2.length : Int) ≤ LONG_MAX) :
    ∀ p ∈ autos (m'.flatMap (·.2)), ∃ v, p.value = some v ∧ 0 < v ∧ v ≤ LONG_MAX := by
  induction h with
  | nil =>
    intro p hp
    cases hp
  | cons hxy _ ih =>
    intro p hp
    unfold autos at hp
    rw [List.flatMap_cons, List.filterMap_append] at hp
    rcases List.mem_append.1 hp with hp | hp
    · obtain ⟨i, hi, hpos, hle⟩ := hxy.2.values p hp
      have hmax := hfit _ List.mem_cons_self
      exact ⟨i, hi, by omega, by omega⟩
    · exact ih (fun y hy => hfit y (List.mem_cons_of_mem _ hy)) p hp

/-- A run that reported nothing, with its id-output file. -/
theorem assignIds_settled {idInput : Option (Str × Str)} {r : Assignment}
    (h : assignIds threshold idInput true log m = .ok r) (hlog : r.log = log) :
    AllSettled threshold log m r.apiMap ∧
      ∃ text, writeIds (r.apiMap.flatMap (·.2)) = .ok text ∧ r.output = some text := by
  obtain ⟨⟨m', log', warnings⟩, h₁, h⟩ := bind_eq_ok.1 h
  obtain ⟨text, h₂, h⟩ := bind_eq_ok.1 h
  cases h
  dsimp only at hlog
  subst hlog
  refine ⟨?_, text, h₂, rfl⟩
  cases idInput with
  | none =>
    obtain ⟨⟨m₁, log₁⟩, htypes, h⟩ := bind_eq_ok.1 h₁
    cases h
    exact assignTypes_settled htypes
  | some f =>
    obtain ⟨idMap, -, hrest⟩ := bind_eq_ok.1 h₁
    obtain ⟨⟨m₁, idMap₁, log₁⟩, htypes, h⟩ := bind_eq_ok.1 hrest
    cases h
    exact inputTypes_settled htypes

/-- The id-output file of a run, taken as id-input file, gives the same numbers again. -/
theorem assignIds_again {idInput : Option (Str × Str)} {r : Assignment}
    (h : assignIds threshold idInput true log m = .ok r) (hlog : r.log = log)
    (hnames : ((autos (m.flatMap (·.2))).map (·.text)).Nodup)
    (hvalid : ∀ p ∈ autos (m.flatMap (·.2)), validObjectId p.text)
    (hfit : ∀ x ∈ m, (x.2.length : Int) ≤ LONG_MAX) (file : Str) :
    ∃ text warnings, r.output = some text ∧
      assignIds threshold (some (file, text)) true log m =
        .ok ⟨r.apiMap, log, warnings, some text⟩ := by
  obtain ⟨hset, text, htext, hout⟩ := assignIds_settled h hlog
  have hsame := Revalued.map_text hset.revalued
  have hvalues := hset.values hfit
  have hwrite := writeIds_eq hset.kinds fun p hp => by
    obtain ⟨v, hv, -⟩ := hvalues p hp
    rw [hv]
    exact Option.some_ne_none v
  cases htext.symm.trans hwrite
  have hfst : ((autos (r.apiMap.flatMap (·.2))).map entry).map (·.1) =
      (autos (m.flatMap (·.2))).map (·.text) := by
    rw [← hsame, List.map_map]
    rfl
  have hentries : ∀ e ∈ (autos (r.apiMap.flatMap (·.2))).map entry,
      validObjectId e.1 ∧ 0 < e.2 ∧ e.2 ≤ LONG_MAX := by
    intro e he
    obtain ⟨p, hp, rfl⟩ := List.mem_map.1 he
    obtain ⟨v, hv, hpos, hmax⟩ := hvalues p hp
    have htext : p.text ∈ (autos (m.flatMap (·.2))).map (·.text) := hsame ▸ List.mem_map_of_mem hp
    obtain ⟨q, hq, hqt⟩ := List.mem_map.1 htext
    unfold entry
    rw [hv]
    exact ⟨hqt ▸ hvalid q hq, hpos, hmax⟩
  have hread := readIds_idLines file [] hentries (by
    rw [List.map_nil, List.nil_append, hfst]
    exact hnames)
  have hlists : Lists ([] ++ ((autos (r.apiMap.flatMap (·.2))).map entry).map
      fun e => ⟨e.1, e.2, false⟩) (r.apiMap.flatMap (·.2)) := by
    intro p hp
    obtain ⟨v, hv, hpos, -⟩ := hvalues p hp
    refine ⟨v, ?_, hv, hpos⟩
    have hval := valueOf_entries (hfst ▸ hnames) (List.mem_map_of_mem hp (f := entry))
    unfold entry at hval
    rw [hv] at hval
    exact hval
  obtain ⟨idMap', hinput⟩ := hset.again hlists
  have hnumber : ∃ warnings, numberTypes threshold (some (file, _)) log m =
      .ok (r.apiMap, log, warnings) :=
    ⟨_, bind_eq_ok.2 ⟨_, hread, bind_eq_ok.2 ⟨_, hinput, rfl⟩⟩⟩
  obtain ⟨warnings, hnumber⟩ := hnumber
  exact ⟨_, warnings, hout, bind_eq_ok.2 ⟨_, hnumber, bind_eq_ok.2 ⟨_, hwrite, rfl⟩⟩⟩

end File

/-- The numbers of the objects of each type are those from one on, what clashes is reported, and the
id-output file of a run gives the same numbers again. -/
theorem assignId_numbers (threshold : Nat) (log : List Diag) :
    (∀ apis out, assignId threshold log apis = .ok (out, log) → Assigned apis out) ∧
    (∀ apis a b, [a, b].Sublist apis → Clash a b → ∀ r, assignId threshold log apis ≠ .ok r) ∧
    ∀ idInput m r, assignIds threshold idInput true log m = .ok r → r.log = log →
      ((autos (m.flatMap (·.2))).map (·.text)).Nodup →
      (∀ p ∈ autos (m.flatMap (·.2)), validObjectId p.text) →
      (∀ x ∈ m, (x.2.length : Int) ≤ LONG_MAX) →
      ∀ file, ∃ text warnings, r.output = some text ∧
        assignIds threshold (some (file, text)) true log m =
          .ok ⟨r.apiMap, log, warnings, some text⟩ := by
  refine ⟨fun apis out h => assignId_assigned h, ?_, ?_⟩
  · intro apis a b hs hc r
    exact assignId_clash hs hc
  · intro idInput m r h hlog hnames hvalid hfit file
    exact assignIds_again h hlog hnames hvalid hfit file

/-- An API of a table with `#tskid`, or with `%tskid`. -/
def taskApi (symbol : Char) (slave : Bool) (name : Char) (value : Int) : StaticApi :=
  ⟨⟨"tsk".toList, "TSK".toList, 0, slave⟩,
    [⟨symbol :: "tskid".toList, [name], some value, List.cons_ne_nil _ _⟩], ⟨[], 1⟩⟩

def tasks : List StaticApi :=
  [taskApi '#' false 'A' 0, taskApi '#' false 'B' 1, taskApi '%' true 'A' 0, taskApi '#' false 'C' 0]

def numbered : List StaticApi :=
  [taskApi '#' false 'A' 2, taskApi '#' false 'B' 1, taskApi '%' true 'A' 0, taskApi '#' false 'C' 3]

theorem assignId_numbers_tasks :
    Assigned tasks numbered ∧ ∃ text warnings,
      assignIds 100 none true [] [("tsk".toList, tasks)] =
        .ok ⟨[("tsk".toList, numbered)], [], [], some text⟩ ∧
      assignIds 100 (some ([], text)) true [] [("tsk".toList, tasks)] =
        .ok ⟨[("tsk".toList, numbered)], [], warnings, some text⟩ := by
  have hall := assignId_numbers 100 []
  have hrun : assignIds 100 none true [] [("tsk".toList, tasks)] =
      .ok ⟨[("tsk".toList, numbered)], [], [], some "A\t2\nB\t1\nC\t3\n".toList⟩ := by rfl
  obtain ⟨text, warnings, hout, hagain⟩ := hall.2.2 none _ _ hrun rfl (by decide) (by decide)
    (by decide) []
  cases hout
  exact ⟨hall.1 tasks numbered rfl, _, warnings, hrun, hagain⟩

/-- Whoever numbers an object themselves may give it the name of another one. -/
theorem not_names_reported :
    ¬∀ (apis : List StaticApi) (a b : StaticApi) (n : Str), [a, b].Sublist apis →
      a.creates = some n → b.creates = some n → ∀ out, assignId 100 [] apis ≠ .ok (out, []) := by
  intro h
  exact h [taskApi '#' false 'A' 0, taskApi '%' false 'A' 5] _ _ _ (List.Sublist.refl _) rfl rfl
    [taskApi '#' false 'A' 1, taskApi '%' false 'A' 5] rfl

end AspKernel.Itronx
