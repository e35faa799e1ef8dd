import Mathlib.Data.List.Basic
import Mathlib.Data.List.Infix

/-! The reader and the writer of CSV texts. -/

namespace AspKernel.Toppers.Csv
set_option autoImplicit true

abbrev Field := List Char

abbrev Record := List Field

/-- The states of `basic_csv::read`. -/
inductive State
  | none
  | nonEscaped
  | escapeOpened
  | escapeClosed
  deriving DecidableEq, Repr

/-- What keeps a text from being read: `csv_error` with its line, or a look behind the last character. -/
inductive Stop
  | csvError (line : Nat)
  | pastEnd
  deriving DecidableEq, Repr

structure Reader where
  state : State
  records : List Record
  record : Record
  field : Field
  line : Nat
  deriving DecidableEq, Repr

namespace Reader

def start : Reader := ⟨.none, [], [], [], 1⟩

def push (s : Reader) (f : Field) : Reader := { s with field := s.field ++ f }

theorem push_nil (s : Reader) : s.push [] = s := by
  rw [push, List.append_nil]

theorem push_push (s : Reader) (f g : Field) : (s.push f).push g = s.push (f ++ g) := by
  rw [push, push, push, List.append_assoc]

/-- What the loop does with a character other than a double quote. -/
def plain (s : Reader) (ch : Char) : Reader :=
  if s.state = .escapeOpened then s.push [ch]
  else if ch = ',' ∨ ch = '\n' then
    let s := { s with record := s.record ++ [s.field], field := [], state := .none }
    if ch = '\n' then
      { s with records := s.records ++ [s.record], record := [], line := s.line + 1 }
    else s
  else s.push [ch]

end Reader

/-- The loop of `read`, at the text that is left. -/
def readLoop (s : Reader) : List Char → Except Stop Reader
  | [] => .ok s
  | ch :: first =>
    if ch = '"' then
      match s.state with
      | .none => readLoop { s with state := .escapeOpened } first
      | .escapeOpened =>
        match first.head? with
        | none => .error .pastEnd
        -- the second quote is not stepped over
        | some ch => if ch = '"' then readLoop (s.push ['"']) first
          else readLoop { s with state := .escapeClosed } first
      | _ => .error (.csvError s.line)
    else readLoop (s.plain ch) first

def read (text : List Char) : Except Stop (List Record) :=
  (readLoop .start text).map Reader.records

/-- The loop of `write` over a field: what it has of it, and `need_escape`. -/
def escapeStep (acc : Field × Bool) (ch : Char) : Field × Bool :=
  if ch = '"' then (acc.1 ++ ['"', ch], true)
  else if ch = ',' ∨ ch = '\n' then (acc.1 ++ [ch], true)
  else (acc.1 ++ [ch], acc.2)

def writeField (f : Field) : List Char :=
  let (field, needEscape) := f.foldl escapeStep ([], false)
  if needEscape then '"' :: field ++ ['"'] else field

def writeRecord : Record → List Char
  | [] => ['\n']
  | [f] => writeField f ++ ['\n']
  | f :: fs => writeField f ++ ',' :: writeRecord fs

theorem writeRecord_cons (f g : Field) (r : Record) :
    writeRecord (f :: g :: r) = writeField f ++ ',' :: writeRecord (g :: r) := rfl

def write (table : List Record) : List Char :=
  table.flatMap writeRecord

/-- A field within double quotes, with its own doubled. -/
def double (f : Field) : List Char :=
  f.flatMap fun ch => if ch = '"' then ['"', '"'] else [ch]

theorem double_cons (ch : Char) (f : Field) :
    double (ch :: f) = (if ch = '"' then ['"', '"'] else [ch]) ++ double f := rfl

theorem double_append (f g : Field) : double (f ++ g) = double f ++ double g :=
  List.flatMap_append

theorem double_of_not_mem (h : '"' ∉ f) : double f = f := by
  induction f with
  | nil => rfl
  | cons ch f ih =>
    obtain ⟨hch, hf⟩ := not_or.1 (mt List.mem_cons.2 h)
    rw [double_cons, if_neg (Ne.symm hch), ih hf, List.singleton_append]

theorem double_quotes (n : Nat) : double (.replicate n '"') = .replicate (2 * n) '"' := by
  induction n with
  | zero => rfl
  | succ n ih =>
    rw [List.replicate_succ, double_cons, ih, if_pos rfl]
    rfl

/-- The characters for which a field is put in quotes. -/
def special (ch : Char) : Bool := ch = '"' ∨ ch = ',' ∨ ch = '\n'

theorem escapeStep_eq (acc : Field × Bool) (ch : Char) :
    escapeStep acc ch = (acc.1 ++ (if ch = '"' then ['"', '"'] else [ch]), acc.2 || special ch) := by
  rw [escapeStep]
  split
  · next h => simp [h, special]
  · next h =>
    split
    · next h' => simp [h, h', special]
    · next h' => simp [h, h', special]

theorem escapeLoop_eq (f : Field) (acc : Field × Bool) :
    f.foldl escapeStep acc = (acc.1 ++ double f, acc.2 || f.any special) := by
  induction f generalizing acc with
  | nil => simp [double]
  | cons ch f ih =>
    rw [List.foldl_cons, ih, escapeStep_eq, double_cons, List.append_assoc, List.any_cons, Bool.or_assoc]

theorem writeField_eq (f : Field) :
    writeField f = if f.any special then '"' :: double f ++ ['"'] else double f := by
  rw [writeField, escapeLoop_eq]
  rfl

section
variable {s s' : Reader} {f : Field}

theorem readLoop_plain (h : ch ≠ '"') : readLoop s (ch :: t) = readLoop (s.plain ch) t := by
  rw [readLoop, if_neg h]

theorem readLoop_open (h : s.state = .none) :
    readLoop s ('"' :: t) = readLoop { s with state := .escapeOpened } t := by
  rw [readLoop, if_pos rfl, h]

theorem readLoop_double (h : s.state = .escapeOpened) : readLoop s ('"' :: '"' :: t) =
    readLoop (s.push ['"']) ('"' :: t) := by
  rw [readLoop, if_pos rfl, h]
  rfl

theorem readLoop_close (h : s.state = .escapeOpened) (hch : ch ≠ '"') :
    readLoop s ('"' :: ch :: t) = readLoop { s with state := .escapeClosed } (ch :: t) := by
  rw [readLoop, if_pos rfl, h]
  exact if_neg hch

theorem readLoop_refused (h : s.state = .escapeClosed) :
    readLoop s ('"' :: t) = .error (.csvError s.line) := by
  rw [readLoop, if_pos rfl, h]

/-- Within a quoted field everything but a double quote belongs to it. -/
theorem readLoop_inside (h : s.state = .escapeOpened) (hf : '"' ∉ f) :
    readLoop s (f ++ t) = readLoop (s.push f) t := by
  induction f generalizing s with
  | nil => rw [Reader.push_nil, List.nil_append]
  | cons ch f ih =>
    obtain ⟨hch, hf⟩ := not_or.1 (mt List.mem_cons.2 hf)
    rw [List.cons_append, readLoop_plain (Ne.symm hch), Reader.plain, if_pos h, ih (by exact h) hf,
      Reader.push_push, List.singleton_append]

/-- The same outside quotes, without separators. -/
theorem readLoop_outside (h : s.state ≠ .escapeOpened) (hf : f.any special = false) :
    readLoop s (f ++ t) = readLoop (s.push f) t := by
  induction f generalizing s with
  | nil => rw [Reader.push_nil, List.nil_append]
  | cons ch f ih =>
    rw [List.any_cons, Bool.or_eq_false_iff] at hf
    have hch : ch ≠ '"' ∧ ¬(ch = ',' ∨ ch = '\n') := by simpa [special] using hf.1
    rw [List.cons_append, readLoop_plain hch.1, Reader.plain, if_neg h, if_neg hch.2, ih (by exact h) hf.2,
      Reader.push_push, List.singleton_append]

/-- A run of double quotes in a quoted field: all but one are taken, and the field is closed. -/
theorem readLoop_quotes (h : s.state = .escapeOpened) (hch : ch ≠ '"') :
    readLoop s (List.replicate (n + 1) '"' ++ ch :: t) =
      readLoop (Reader.push { s with state := .escapeClosed } (.replicate n '"')) (ch :: t) := by
  induction n generalizing s with
  | zero =>
    rw [List.replicate_zero, Reader.push_nil]
    exact readLoop_close h hch
  | succ n ih =>
    rw [List.replicate_succ, List.replicate_succ, List.cons_append, List.cons_append, readLoop_double h,
      ← List.cons_append, ← List.replicate_succ, ih (by exact h), Reader.push]
    rw [Reader.push, Reader.push, List.append_assoc, List.singleton_append, ← List.replicate_succ]

theorem comma_ne : ',' ≠ '"' := Char.ne_of_val_ne (by decide)

theorem newline_ne : '\n' ≠ '"' := Char.ne_of_val_ne (by decide)

/-- A field as `write` puts it, up to its separator, where it has no double quotes. -/
theorem readLoop_field (h : s.state = .none) (hf : '"' ∉ f)
    (hch : ch = ',' ∨ ch = '\n') : readLoop s (writeField f ++ ch :: t) =
      readLoop ((s.push f).plain ch) t := by
  have hne : ch ≠ '"' := by
    rcases hch with rfl | rfl
    · exact comma_ne
    · exact newline_ne
  rw [writeField_eq, double_of_not_mem hf]
  split
  · rw [List.cons_append, List.cons_append, List.append_assoc, List.singleton_append, readLoop_open h,
      readLoop_inside rfl hf, readLoop_close rfl hne, readLoop_plain hne]
    simp [Reader.plain, Reader.push, h, hch]
  · next hany =>
    rw [readLoop_outside (by rw [h]; decide) (Bool.eq_false_iff.2 hany), readLoop_plain hne]

theorem plain_comma (hs : s.state = .none) (hf : s.field = []) :
    (s.push f).plain ',' = { s with record := s.record ++ [f] } := by
  simp [Reader.plain, Reader.push, hs, hf]

theorem readLoop_record {r : Record} (hs : s.state = .none) (hf : s.field = []) (hr : r ≠ [])
    (h : ∀ f ∈ r, '"' ∉ f) : readLoop s (writeRecord r ++ t) =
      readLoop { s with records := s.records ++ [s.record ++ r], record := [], line := s.line + 1 } t := by
  induction r generalizing s with
  | nil => exact absurd rfl hr
  | cons f r ih =>
    have hq := h f List.mem_cons_self
    cases r with
    | nil =>
      rw [writeRecord, List.append_assoc, List.singleton_append, readLoop_field hs hq (.inr rfl)]
      simp [Reader.plain, Reader.push, hs, hf]
    | cons g r =>
      rw [writeRecord_cons, List.append_assoc, List.cons_append, readLoop_field hs hq (.inl rfl)]
      rw [plain_comma hs hf, ih (by exact hs) (by exact hf) (by simp) fun f hf => h f (List.mem_cons_of_mem _ hf)]
      simp

end

/-- The fields that are complete. -/
def Reader.fields (s : Reader) : List Field := s.records.flatten ++ s.record

section
variable {s s' : Reader}

theorem Reader.plain_cases (s : Reader) (ch : Char) : s.plain ch = s.push [ch] ∨
    (s.plain ch).fields = s.fields ++ [s.field] ∧ (s.plain ch).field = [] := by
  rw [plain]
  split
  · exact .inl rfl
  · split
    · split
      · exact .inr ⟨by simp [fields], rfl⟩
      · exact .inr ⟨by simp [fields], rfl⟩
    · exact .inl rfl

/-- What is read of the fields stays in their list. -/
theorem readLoop_grows (h : readLoop s t = .ok s') :
    ∃ x rest, s'.fields ++ [s'.field] = s.fields ++ (s.field ++ x) :: rest := by
  induction t generalizing s with
  | nil =>
    cases h
    exact ⟨[], [], by rw [List.append_nil]⟩
  | cons ch t ih =>
    have hpush {f : Field} (h : readLoop (s.push f) t = .ok s') :
        ∃ x rest, s'.fields ++ [s'.field] = s.fields ++ (s.field ++ x) :: rest := by
      obtain ⟨x, rest, he⟩ := ih h
      exact ⟨f ++ x, rest, by rw [he, ← List.append_assoc]; rfl⟩
    rw [readLoop] at h
    split at h
    · split at h
      · have hopen := ih h
        exact hopen
      · split at h
        · cases h
        · split at h
          · exact hpush h
          · have hclosed := ih h
            exact hclosed
      · cases h
    · rcases s.plain_cases ch with hp | ⟨hf, he⟩
      · rw [hp] at h
        exact hpush h
      · obtain ⟨x, rest, he'⟩ := ih h
        rw [hf, he, List.append_assoc] at he'
        exact ⟨[], _, by rw [he', List.append_nil]; rfl⟩

/-- A reader that is to end with the field `f` behind those it has is on its way to `f`. -/
theorem readLoop_towards (h : readLoop s t = .ok s') (hf : (s.fields ++ [f]).IsPrefix s'.fields) :
    s.field.IsPrefix f := by
  obtain ⟨x, rest, he⟩ := readLoop_grows h
  obtain ⟨r, hr⟩ := hf
  rw [← hr, List.append_assoc, List.append_assoc] at he
  exact ⟨x, (List.cons.inj (List.append_cancel_left he)).1.symm⟩

theorem readLoop_taken (h : readLoop s t = .ok s') (hs : s.fields = l ++ [g])
    (hf : (l ++ [f]).IsPrefix s'.fields) : g = f := by
  obtain ⟨x, rest, he⟩ := readLoop_grows h
  obtain ⟨r, hr⟩ := hf
  rw [← hr, hs, List.append_assoc, List.append_assoc, List.append_assoc] at he
  exact (List.cons.inj (List.append_cancel_left he)).1.symm

/-- Behind a closing quote the rest of a field that ends in a double quote is not read. -/
theorem readLoop_behind (h : s.state = .escapeClosed)
    (hr : readLoop s (double q ++ '"' :: t) = .ok s') :
    ¬(s.fields ++ [s.field ++ q]).IsPrefix s'.fields := by
  intro hf
  induction q generalizing s with
  | nil =>
    rw [double, List.flatMap_nil, List.nil_append, readLoop_refused h] at hr
    cases hr
  | cons ch q ih =>
    rw [double_cons, List.append_assoc] at hr
    split at hr
    · rw [List.cons_append, readLoop_refused h] at hr
      cases hr
    · next hch =>
      rw [List.singleton_append, readLoop_plain hch] at hr
      rcases s.plain_cases ch with hp | ⟨hp, -⟩
      · rw [hp] at hr
        refine ih (s := s.push [ch]) h hr ?_
        rw [Reader.push, List.append_assoc]
        exact hf
      · have he := congrArg List.length (readLoop_taken hr hp hf)
        rw [List.length_append, List.length_cons] at he
        omega

theorem leading_quotes (r : Field) :
    ∃ m q, r = .replicate m '"' ++ q ∧ q.head? ≠ some '"' := by
  induction r with
  | nil => exact ⟨0, [], rfl, nofun⟩
  | cons ch r ih =>
    by_cases hch : ch = '"'
    · obtain ⟨m, q, rfl, hq⟩ := ih
      exact ⟨m + 1, q, by rw [hch]; rfl, hq⟩
    · exact ⟨0, ch :: r, rfl, fun h => hch (Option.some.inj h)⟩

/-- A field with double quotes is not read back: of a run of them at the end of the field one is too many,
of another one half of the last pair closes the field. -/
theorem readLoop_lost (h : s.state = .none) (hs : s.field = []) (hf : '"' ∈ f) (hch : ch ≠ '"')
    (hr : readLoop s (writeField f ++ ch :: t) = .ok s') : ¬(s.fields ++ [f]).IsPrefix s'.fields := by
  intro hpre
  have hany : f.any special = true := List.any_eq_true.2 ⟨_, hf, by decide⟩
  obtain ⟨p, r, rfl, hp⟩ := List.eq_append_cons_of_mem hf
  obtain ⟨m, q, rfl, hq⟩ := leading_quotes r
  rw [writeField_eq, if_pos hany, List.cons_append, List.cons_append, List.append_assoc, readLoop_open h,
    double_append, double_of_not_mem hp, ← List.cons_append, ← List.replicate_succ, double_append,
    double_quotes, List.append_assoc, List.append_assoc, readLoop_inside rfl hp] at hr
  cases q with
  | nil =>
    rw [double, List.flatMap_nil, List.nil_append, ← List.append_assoc, ← List.replicate_succ',
      readLoop_quotes rfl hch] at hr
    have hle := (readLoop_towards hr hpre).length_le
    simp only [Reader.push, hs, List.nil_append, List.append_nil, List.length_append, List.length_cons,
      List.length_replicate] at hle
    omega
  | cons c q =>
    have hc : c ≠ '"' := fun h => hq (congrArg some h)
    have hd : double (c :: q) = c :: double q := by
      rw [double_cons, if_neg hc, List.singleton_append]
    rw [show 2 * (m + 1) = m + 1 + m + 1 by omega, hd, List.cons_append, readLoop_quotes rfl hc] at hr
    cases m with
    | zero =>
      rw [← List.cons_append, ← hd] at hr
      refine readLoop_behind rfl hr ?_
      simp only [Reader.push, hs, List.nil_append]
      rw [List.append_assoc]
      exact hpre
    | succ m =>
      have ht := readLoop_towards hr hpre
      simp only [Reader.push, hs, List.nil_append] at ht
      rw [List.replicate_add, ← List.cons_append, ← List.replicate_succ] at ht
      have ht := (List.prefix_append_right_inj _).1 ((List.prefix_append_right_inj _).1 ht)
      rw [List.replicate_succ, List.cons_prefix_cons] at ht
      exact hc ht.1.symm

/-- A record with a double quote in one of its fields is not read back. -/
theorem readLoop_record_lost {r : Record} (hs : s.state = .none) (hf : s.field = [])
    (hq : ∃ f ∈ r, '"' ∈ f) (h : readLoop s (writeRecord r ++ t) = .ok s') :
    ¬(s.fields ++ r).IsPrefix s'.fields := by
  induction r generalizing s with
  | nil =>
    obtain ⟨f, hmem, -⟩ := hq
    cases hmem
  | cons f r ih =>
    intro hpre
    have hfirst : (s.fields ++ [f]).IsPrefix s'.fields :=
      .trans ((List.prefix_append_right_inj _).2 ⟨r, rfl⟩) hpre
    cases r with
    | nil =>
      obtain ⟨f', hmem, hq⟩ := hq
      rw [List.mem_singleton.1 hmem] at hq
      rw [writeRecord, List.append_assoc] at h
      exact readLoop_lost hs hf hq newline_ne h hfirst
    | cons g r =>
      rw [writeRecord_cons, List.append_assoc, List.cons_append] at h
      by_cases hmem : '"' ∈ f
      · exact readLoop_lost hs hf hmem comma_ne h hfirst
      · rw [readLoop_field hs hmem (.inl rfl), plain_comma hs hf] at h
        refine ih (s := { s with record := s.record ++ [f] }) hs hf ?_ h ?_
        · obtain ⟨f', hmem', hq⟩ := hq
          rcases List.mem_cons.1 hmem' with rfl | hmem'
          · exact absurd hq hmem
          · exact ⟨f', hmem', hq⟩
        · rw [Reader.fields, ← List.append_assoc, List.append_assoc]
          exact hpre

theorem readLoop_table {n : Nat} {done : List Record} {table : List Record} (hne : ∀ r ∈ table, r ≠ []) :
    (readLoop ⟨.none, done, [], [], n⟩ (write table)).map Reader.records = .ok (done ++ table) ↔
      ∀ r ∈ table, ∀ f ∈ r, '"' ∉ f := by
  induction table generalizing done n with
  | nil => simp [write, readLoop, Except.map]
  | cons r table ih =>
    rw [write, List.flatMap_cons, List.forall_mem_cons]
    by_cases hr : ∀ f ∈ r, '"' ∉ f
    · rw [readLoop_record rfl rfl (hne r List.mem_cons_self) hr, and_iff_right hr,
        ← ih fun r hr => hne r (List.mem_cons_of_mem _ hr), List.append_cons done r table]
      rfl
    · refine iff_of_false ?_ fun h => hr h.1
      intro h
      cases hread : readLoop ⟨.none, done, [], [], n⟩ (writeRecord r ++ table.flatMap writeRecord) with
      | error =>
        rw [hread] at h
        cases h
      | ok s' =>
        rw [hread] at h
        have hrec : s'.records = done ++ r :: table := Except.ok.inj h
        refine readLoop_record_lost rfl rfl ?_ hread ?_
        · simpa using hr
        · rw [Reader.fields, Reader.fields, hrec]
          simp

end

/-- What is written is read back exactly where no field holds a double quote. -/
theorem read_write (table : List Record) (h : ∀ r ∈ table, r ≠ []) :
    read (write table) = .ok table ↔ ∀ r ∈ table, ∀ f ∈ r, '"' ∉ f :=
  readLoop_table h

theorem read_write_api :
    read (write [["CRE_TSK".toList, "#tskid* .tskatr,&exinf".toList], [[]]]) =
      .ok [["CRE_TSK".toList, "#tskid* .tskatr,&exinf".toList], [[]]] :=
  (read_write _ (by decide)).2 (by decide)

theorem not_read_write : read (write [[['a', '"', 'b']]]) = .error (.csvError 1) ∧
    read (write [[['"']]]) = .ok [[['"', '"']]] := by
  decide

end AspKernel.Toppers.Csv
