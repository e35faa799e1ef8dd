import AspKernel.LogOutput

namespace AspKernel
set_option autoImplicit true

def TMAX_LOGINFO : Nat := 6

theorem tmaxLoginfo_pos : 0 < TMAX_LOGINFO := by decide

/-- The loop of `syslog` that passes over a width. -/
def skipWidth (c : Char) (format : List Char) : Char × List Char :=
  if '0' ≤ c ∧ c ≤ '9' then
    match format with
    | [] => (nul, [])
    | c :: format => skipWidth c format
  else (c, format)

/-- What `syslog` reads of a conversion behind its `%`. `long_t` and `int_t` have the same size. -/
def readConv (format : List Char) : Char × List Char :=
  let p := fetch format
  let p := skipWidth p.1 p.2
  if p.1 = 'l' then fetch p.2 else p

/-- The conversions for which `syslog` stores an argument. -/
def storesArg (c : Char) : Bool :=
  c = 'd' || c = 'u' || c = 'x' || c = 'X' || c = 'p' || c = 'c' || c = 's'

theorem skipWidth_eq (l : List Char) :
    skipWidth (fetch l).1 (fetch l).2 = fetch (l.dropWhile isDig) := by
  induction l with
  | nil => rfl
  | cons c l ih =>
    change skipWidth c l = _
    rw [List.dropWhile_cons]
    by_cases hc : '0' ≤ c ∧ c ≤ '9'
    · have hd : isDig c = true := decide_eq_true hc
      unfold skipWidth
      rw [if_pos hc, hd]
      cases l with
      | nil => rfl
      | cons d l => exact ih
    · have hd : isDig c = false := decide_eq_false hc
      unfold skipWidth
      rw [if_neg hc, hd]
      rfl

theorem readConv_eq (format : List Char) : readConv format = skipL (format.dropWhile isDig) := by
  unfold readConv skipL
  simp only [skipWidth_eq]

theorem skipL_drop_length (format : List Char) :
    (skipL (format.dropWhile isDig)).2.length ≤ format.length :=
  (skipL_length _).trans (List.dropWhile_sublist _).length_le

/-- The loop of `syslog`, with the arguments that are left and the number of cells of `loginfo` that have
been stored. It has no result where there is no argument. -/
def syslogLoop (ap : List IntPtr) (loginfo : Vector IntPtr TMAX_LOGINFO) (i : Nat) :
    List Char → Option (Vector IntPtr TMAX_LOGINFO × Nat)
  | [] => some (loginfo, i)
  | c :: format =>
    if c = nul then some (loginfo, i)
    else if h : i < TMAX_LOGINFO then
      if c ≠ '%' then syslogLoop ap loginfo i format
      else
        let p := readConv format
        if storesArg p.1 then
          match ap with
          | [] => none
          | val :: ap => syslogLoop ap (loginfo.set i val h) (i + 1) p.2
        -- `format--`
        else if p.1 = nul then some (loginfo, i)
        else syslogLoop ap loginfo i p.2
    else some (loginfo, i)
termination_by format => format.length
decreasing_by
  · exact Nat.lt_succ_self _
  · rw [readConv_eq]
    exact Nat.lt_succ_of_le (skipL_drop_length _)
  · rw [readConv_eq]
    exact Nat.lt_succ_of_le (skipL_drop_length _)

/-- The record that `syslog` writes, and the number of cells of `loginfo` that it has stored; the others
hold what `logbuf` held before. -/
def syslog (str : Addr → List Char) (logbuf : SYSLOG) (format : Addr) (ap : List IntPtr) :
    Option (SYSLOG × Nat) :=
  (syslogLoop ap (logbuf.loginfo.set 0 format tmaxLoginfo_pos) 1 (str format)).map fun r =>
    (⟨LOG_TYPE_COMMENT, logbuf.logtim, r.1⟩, r.2)

/-- The parts of a format. -/
inductive Item
  | text (c : Char)
  | conv (digits : List Char) (c : Char)

/-- A format as text and conversions; the last one may be cut off. -/
def items : List Char → List Item
  | [] => []
  | c :: format =>
    if c = nul then []
    else if c ≠ '%' then .text c :: items format
    else
      let p := skipL (format.dropWhile isDig)
      if p.1 = nul then []
      else .conv (format.takeWhile isDig) p.1 :: items p.2
termination_by format => format.length
decreasing_by
  · exact Nat.lt_succ_self _
  · exact Nat.lt_succ_of_le (skipL_drop_length _)

def Item.takes : Item → Bool
  | text _ => false
  | conv _ c => takesArg c

/-- The conversions of a format that take an argument. -/
def argCount (format : List Char) : Nat := (items format).countP Item.takes

/-- What an item shows that takes no argument. -/
def Item.plain : Item → List Char
  | text c => [c]
  | conv _ c => if c = '%' then ['%'] else []

/-- What an item shows of its argument. -/
def Item.shows (str : Addr → List Char) (val : IntPtr) : Item → Option (List Char)
  | text c => some [c]
  | conv digits c =>
    putArg str ⟨decide (digits.head? = some '0'), digits.foldl widthStep 0, c, []⟩ val

/-- What a format shows where every conversion has its own argument. -/
def expected (str : Addr → List Char) : List Item → List IntPtr → Option (List Char)
  | [], _ => some []
  | item :: l, args =>
    if item.takes then
      match args with
      | [] => none
      | val :: args => do
        let out ← item.shows str val
        (expected str l args).map (out ++ ·)
    else (expected str l args).map (item.plain ++ ·)

/-- `syslog_printf` on the parts of a format. -/
def printItems (str : Addr → List Char) (args : Nat → Option IntPtr) :
    Nat → List Item → Option (List Char)
  | _, [] => some []
  | k, item :: l =>
    if item.takes then do
      let val ← args k
      let out ← item.shows str val
      (printItems str args (k + 1) l).map (out ++ ·)
    else (printItems str args k l).map (item.plain ++ ·)

theorem syslogPrintf_items (str : Addr → List Char) (args : Nat → Option IntPtr) (k : Nat)
    (format : List Char) : syslogPrintf str args k format = printItems str args k (items format) := by
  induction format using items.induct generalizing k with
  | case1 => rw [syslogPrintf, items, printItems]
  | case2 format => rw [syslogPrintf, items, if_pos rfl, if_pos rfl, printItems]
  | case3 c format hc hp ih =>
    rw [syslogPrintf, items, if_neg hc, if_neg hc, if_pos hp, if_pos hp, ih]
    rfl
  | case4 c format hc hp p hnul =>
    have h : takesArg nul = false ∧ nul ≠ '%' := by decide
    rw [syslogPrintf, items, if_neg hc, if_neg hc, if_neg hp, if_neg hp, readSpec_eq]
    simp only [show (skipL (format.dropWhile isDig)).1 = nul from hnul, h.1, if_neg h.2,
      Bool.false_eq_true, if_false, if_true, printItems]
  | case5 c format hc hp p hnul ih =>
    rw [syslogPrintf, items, if_neg hc, if_neg hc, if_neg hp, if_neg hp, readSpec_eq]
    simp only [if_neg (show (skipL (format.dropWhile isDig)).1 ≠ nul from hnul), printItems,
      Item.takes, Item.shows, Item.plain]
    change (if takesArg p.1 = true then _ else _) = if takesArg p.1 = true then _ else _
    split
    · rw [← ih]
      rfl
    · rw [← ih]
      split
      · rfl
      · exact (congrFun Option.map_id _).symm

theorem storesArg_eq (c : Char) : storesArg c = takesArg c := by
  unfold storesArg takesArg
  simp only [Bool.or_assoc, Bool.or_left_comm]

/-- `syslog` stores the arguments in their order, as many as the record holds. -/
theorem syslogLoop_eq {ap : List IntPtr} {i : Nat} (loginfo : Vector IntPtr TMAX_LOGINFO)
    (format : List Char) (hi : i ≤ TMAX_LOGINFO) (hap : argCount format ≤ ap.length) :
    ∃ r : Vector IntPtr TMAX_LOGINFO,
      syslogLoop ap loginfo i format = some (r, i + min (argCount format) (TMAX_LOGINFO - i)) ∧
      (∀ j < i, r[j]? = loginfo[j]?) ∧
      ∀ j < min (argCount format) (TMAX_LOGINFO - i), r[i + j]? = ap[j]? := by
  induction format using items.induct generalizing ap loginfo i with
  | case1 =>
    unfold argCount at hap ⊢
    rw [syslogLoop, items]
    refine ⟨loginfo, ?_, fun _ _ => rfl, ?_⟩
    · simp
    · simp
  | case2 format =>
    unfold argCount at hap ⊢
    rw [syslogLoop, items, if_pos rfl, if_pos rfl]
    refine ⟨loginfo, ?_, fun _ _ => rfl, ?_⟩
    · simp
    · simp
  | case3 c format hc hp ih =>
    have hitems : items (c :: format) = .text c :: items format := by
      rw [items, if_neg hc, if_pos hp]
    unfold argCount at hap ⊢ ih
    rw [hitems, List.countP_cons_of_neg Bool.false_ne_true] at hap ⊢
    rw [syslogLoop, if_neg hc]
    split
    · exact ih loginfo hi hap
    · have h0 : TMAX_LOGINFO - i = 0 := by omega
      rw [h0, Nat.min_zero]
      exact ⟨loginfo, rfl, fun _ _ => rfl, fun j hj => absurd hj (Nat.not_lt_zero j)⟩
  | case4 c format hc hp p =>
    rename_i hnul
    have hnul : (skipL (format.dropWhile isDig)).1 = nul := hnul
    have hitems : items (c :: format) = [] := by
      rw [items, if_neg hc, if_neg hp]
      simp only [hnul, if_true]
    have hst : storesArg nul = false := by decide
    unfold argCount at hap ⊢
    rw [hitems, List.countP_nil, Nat.zero_min, Nat.add_zero, syslogLoop, if_neg hc]
    refine ⟨loginfo, ?_, fun _ _ => rfl, fun j hj => absurd hj (Nat.not_lt_zero j)⟩
    split
    · rw [readConv_eq]
      simp only [hnul, hst, Bool.false_eq_true, if_false, if_true]
    · rfl
  | case5 c format hc hp p hnul =>
    rename_i ih
    have hnul : (skipL (format.dropWhile isDig)).1 ≠ nul := hnul
    have hitems : items (c :: format) = .conv (format.takeWhile isDig)
        (skipL (format.dropWhile isDig)).1 :: items (skipL (format.dropWhile isDig)).2 := by
      rw [items, if_neg hc, if_neg hp]
      simp only [if_neg hnul]
    unfold argCount at hap ⊢ ih
    rw [hitems, List.countP_cons] at hap ⊢
    simp only [Item.takes] at hap ⊢
    rw [syslogLoop, if_neg hc]
    by_cases hlt : i < TMAX_LOGINFO
    · rw [dif_pos hlt, if_neg hp, readConv_eq]
      simp only [storesArg_eq]
      by_cases ht : takesArg (skipL (format.dropWhile isDig)).1 = true
      · simp only [ht, if_true] at hap ⊢
        cases ap with
        | nil => exact absurd hap (Nat.not_succ_le_zero _)
        | cons val ap =>
          rw [List.length_cons] at hap
          obtain ⟨r, hr, hlow, hhigh⟩ := ih (loginfo.set i val hlt) hlt (Nat.le_of_succ_le_succ hap)
          change syslogLoop _ _ _ (skipL (format.dropWhile isDig)).2 = _ at hr
          generalize (items (skipL (format.dropWhile isDig)).2).countP Item.takes = n at hr hhigh ⊢
          have hmin : i + min (n + 1) (TMAX_LOGINFO - i) =
              i + 1 + min n (TMAX_LOGINFO - (i + 1)) := by omega
          refine ⟨r, hmin ▸ hr, ?_, ?_⟩
          · intro j hj
            have hij : i ≠ j := by omega
            rw [hlow j (by omega), Vector.getElem?_set_ne hlt hij]
          · intro j hj
            cases j with
            | zero =>
              rw [Nat.add_zero, hlow i (Nat.lt_succ_self i), Vector.getElem?_set_self]
              rfl
            | succ j =>
              rw [Nat.add_comm j 1, ← Nat.add_assoc]
              exact (hhigh j (by omega)).trans (by rw [Nat.add_comm]; rfl)
      · have ht : takesArg (skipL (format.dropWhile isDig)).1 = false := Bool.eq_false_iff.2 ht
        simp only [ht, Bool.false_eq_true, if_false, Nat.add_zero, if_neg hnul] at hap ⊢
        exact ih loginfo hi hap
    · have h0 : TMAX_LOGINFO - i = 0 := by omega
      rw [dif_neg hlt, h0, Nat.min_zero]
      exact ⟨loginfo, rfl, fun _ _ => rfl, fun j hj => absurd hj (Nat.not_lt_zero j)⟩

theorem putArg_some (str : Addr → List Char) (s : Spec) (val : IntPtr) :
    ∃ out, putArg str s val = some out := by
  cases hn : numberOf s.c val with
  | some n => exact ⟨_, putArg_number str hn⟩
  | none =>
    unfold numberOf at hn
    unfold putArg
    split at hn
    · cases hn
    · rename_i hd
      rw [if_neg hd]
      split at hn
      · cases hn
      · rename_i hu
        rw [if_neg hu]
        split at hn
        · cases hn
        · rename_i hx
          rw [if_neg hx]
          split at hn
          · cases hn
          · rename_i hX
            rw [if_neg hX]
            split
            · exact ⟨_, rfl⟩
            · exact ⟨_, rfl⟩

/-- Where every argument is there, every conversion shows its own. -/
theorem printItems_some (str : Addr → List Char) (args : Nat → Option IntPtr) {vals : List IntPtr}
    {k : Nat} {l : List Item} (hlen : l.countP Item.takes ≤ vals.length)
    (h : ∀ j < l.countP Item.takes, args (k + j) = vals[j]?) :
    printItems str args k l = expected str l vals ∧ ∃ out, expected str l vals = some out := by
  induction l generalizing k vals with
  | nil => exact ⟨rfl, [], rfl⟩
  | cons item l ih =>
    unfold printItems expected
    cases ht : item.takes with
    | false =>
      rw [List.countP_cons_of_neg (by rw [ht]; exact Bool.false_ne_true)] at hlen h
      obtain ⟨he, out, hout⟩ := ih hlen h
      rw [if_neg Bool.false_ne_true, if_neg Bool.false_ne_true, he, hout]
      exact ⟨rfl, _, rfl⟩
    | true =>
      rw [List.countP_cons_of_pos ht] at hlen h
      cases vals with
      | nil => 
        rw [List.length_nil] at hlen
        omega
      | cons val vals =>
        rw [List.length_cons] at hlen
        have hval : args k = some val := h 0 (by omega)
        have hrest (j : Nat) (hj : j < l.countP Item.takes) : args (k + 1 + j) = vals[j]? := by
          rw [Nat.add_right_comm]
          exact h (j + 1) (Nat.succ_lt_succ hj)
        obtain ⟨he, out, hout⟩ := ih (Nat.le_of_succ_le_succ hlen) hrest
        have hshow : ∃ out, item.shows str val = some out := by
          cases item with
          | text c => cases ht
          | conv digits c => exact putArg_some str _ val
        obtain ⟨out', hout'⟩ := hshow
        simp only [if_true, hval, Option.bind_eq_bind, Option.bind_some, hout', he, hout]
        exact ⟨trivial, _, rfl⟩

/-- Where an argument is missing, there is no result. -/
theorem printItems_none (str : Addr → List Char) {args : Nat → Option IntPtr} {k j : Nat}
    {l : List Item} (hj : j < l.countP Item.takes) (h : args (k + j) = none) :
    printItems str args k l = none := by
  induction l generalizing k j with
  | nil => cases hj
  | cons item l ih =>
    unfold printItems
    cases ht : item.takes with
    | false =>
      rw [List.countP_cons_of_neg (by rw [ht]; exact Bool.false_ne_true)] at hj
      rw [if_neg Bool.false_ne_true, ih hj h]
      rfl
    | true =>
      rw [List.countP_cons_of_pos ht] at hj
      rw [if_pos rfl]
      cases j with
      | zero =>
        have hk : args k = none := h
        rw [hk]
        rfl
      | succ j =>
        have hk : args (k + 1 + j) = none := by
          rwa [Nat.add_right_comm, Nat.add_assoc]
        rw [ih (Nat.lt_of_succ_lt_succ hj) hk]
        cases args k with
        | none => rfl
        | some val =>
          rw [Option.bind_eq_bind, Option.bind_some]
          cases item.shows str val with
          | none => rfl
          | some out => rfl

/-- The cells of `loginfo` that `syslog` has stored. -/
def storedCells (p : SYSLOG) (n k : Nat) : Option IntPtr := if k < n then p.loginfo[k]? else none

/-- `syslog_print` reads the cells only that `syslog` has stored, and shows every conversion from its own
argument. -/
def PrintedAlike (str : Addr → List Char) (logbuf : SYSLOG) (format : Addr) (args : List IntPtr) :
    Prop :=
  ∃ p n out, syslog str logbuf format args = some (p, n) ∧
    expected str (items (str format)) args = some out ∧
    syslogPrintf str (storedCells p n) 1 (str format) = some out ∧ syslogPrint str p = some out

section
variable {str : Addr → List Char} {logbuf : SYSLOG} {format : Addr} {args : List IntPtr}

theorem syslog_stored (logbuf : SYSLOG) (hlen : args.length = argCount (str format)) :
    ∃ p n, syslog str logbuf format args = some (p, n) ∧ p.logtype = LOG_TYPE_COMMENT ∧
      p.loginfo[0] = format ∧ n = 1 + min (argCount (str format)) 5 ∧
      ∀ j < min (argCount (str format)) 5, p.loginfo[1 + j]? = args[j]? := by
  obtain ⟨r, hr, hlow, hhigh⟩ := syslogLoop_eq (i := 1) (logbuf.loginfo.set 0 format) (str format)
    (by decide) hlen.ge
  refine ⟨_, _, congrArg (Option.map _) hr, rfl, ?_, rfl, hhigh⟩
  have h0 : r[0]? = some format :=
    (hlow 0 Nat.one_pos).trans (Vector.getElem?_set_self (i := 0) (by decide))
  rw [Vector.getElem?_eq_getElem (by decide)] at h0
  exact Option.some.inj h0

theorem printedAlike_of_le (logbuf : SYSLOG) (hlen : args.length = argCount (str format))
    (h : argCount (str format) ≤ 5) : PrintedAlike str logbuf format args := by
  obtain ⟨p, n, hs, htype, hformat, rfl, hcells⟩ := syslog_stored logbuf hlen
  rw [Nat.min_eq_left h] at hs hcells
  have hstored (j : Nat) (hj : j < argCount (str format)) :
      storedCells p (1 + argCount (str format)) (1 + j) = args[j]? := by
    unfold storedCells
    rw [if_pos (by omega), hcells j hj]
  obtain ⟨he, out, hout⟩ := printItems_some str _ hlen.ge hstored
  obtain ⟨he', -⟩ := printItems_some str (fun k => p.loginfo[k]?) hlen.ge hcells
  refine ⟨p, _, out, hs, hout, ?_, ?_⟩
  · rw [syslogPrintf_items, he, hout]
  · unfold syslogPrint
    rw [if_pos htype, hformat, syslogPrintf_items, he', hout]

theorem le_of_printedAlike (hlen : args.length = argCount (str format))
    (h : PrintedAlike str logbuf format args) : argCount (str format) ≤ 5 := by
  obtain ⟨p, n, out, hs, -, hprint, -⟩ := h
  obtain ⟨p', n', hs', -, -, hn, -⟩ := syslog_stored logbuf hlen
  cases hs.symm.trans hs'
  by_contra hgt
  have hnone : printItems str (storedCells p n) 1 (items (str format)) = none := by
    apply printItems_none str (j := 5)
    · unfold argCount at hgt
      omega
    · unfold storedCells
      apply if_neg
      omega
  rw [syslogPrintf_items, hnone] at hprint
  cases hprint

/-- The record is printed right exactly where the format has at most five conversions that take an
argument. -/
theorem printedAlike_iff (logbuf : SYSLOG) (hlen : args.length = argCount (str format)) :
    PrintedAlike str logbuf format args ↔ argCount (str format) ≤ TMAX_LOGINFO - 1 :=
  ⟨le_of_printedAlike hlen, printedAlike_of_le logbuf hlen⟩

end

/-- A format of `n` conversions. -/
def formatOf : Nat → List Char
  | 0 => []
  | n + 1 => '%' :: 'd' :: formatOf n

theorem argCount_formatOf (n : Nat) : argCount (formatOf n) = n := by
  unfold argCount
  induction n with
  | zero =>
    rw [formatOf, items]
    rfl
  | succ n ih =>
    rw [formatOf, items]
    change (Item.conv [] 'd' :: items (formatOf n)).countP Item.takes = n + 1
    rw [List.countP_cons_of_pos rfl, ih]

theorem printedAlike_five : PrintedAlike (fun _ => formatOf 5) ⟨0, 0, .replicate 6 0⟩ 0x1000
    [1, 2, 3, 4, 5] := by
  apply (printedAlike_iff ⟨0, 0, .replicate 6 0⟩ _).2
  · rw [argCount_formatOf]
    decide
  · rw [argCount_formatOf]
    decide

/-- With six conversions `syslog_printf` reads behind the end of `loginfo`. -/
theorem not_printedAlike_six : formatOf 6 = "%d%d%d%d%d%d".toList ∧
    [1, 2, 3, 4, 5, 6].length = argCount (formatOf 6) ∧
    ¬ PrintedAlike (fun _ => formatOf 6) ⟨0, 0, .replicate 6 0⟩ 0x1000 [1, 2, 3, 4, 5, 6] := by
  have hlen : [1, 2, 3, 4, 5, 6].length = argCount (formatOf 6) := (argCount_formatOf 6).symm
  refine ⟨by decide, hlen, fun h => ?_⟩
  have hle := le_of_printedAlike hlen h
  rw [argCount_formatOf] at hle
  omega

end AspKernel
