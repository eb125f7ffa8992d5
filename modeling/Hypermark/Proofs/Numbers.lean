import Mathlib.Algebra.Group.Nat.Defs
import Mathlib.Data.List.InsertIdx
import Hypermark.Proofs.Outcome
import Hypermark.Proofs.Trim
import Hypermark.Render

/-!
# Numbers in attributes

Four attributes hold numbers: `start` and `value` number the items of a list, `colspan` and
`rowspan` say how far a cell reaches.  Reading and writing a number is bounded by `digitLimit`.  A
header is widened by as many empty columns as a `colspan` asks for, and a fence has as many
backticks as the options ask for, which is bounded by `indexLimit`.  Nothing else in the renderer can
fail, so `NumbersFit` says of an element which of its numbers are used at all and that each of them
fits.

* `readOptional_eq_ok_iff`: an attribute that spells no numeral is read as none.
* `exists_writeInteger_iff`: a number is written unless it has too many digits.
* `exists_widening_iff`: a header is widened unless the columns are more than an index can count.
* `succeeds_fence_iff`: a fence is written unless it has more backticks than an index can count.
-/

namespace Hypermark

namespace Render

/-! ## Numbers that can be read and written -/

/-- The numeral that an attribute spells, if it spells one. -/
def numeral? (raw : Option Text) : Option Numeral :=
  raw.bind fun t => Numeral.ofText? (Text.trim t)

/-- An attribute can be read as a number unless it spells a numeral that is too long. -/
def Readable (raw : Option Text) : Prop :=
  ∀ n, numeral? raw = some n → n.digits.length ≤ digitLimit

/-- A number can be written unless it has too many digits. -/
def Writable (k : Int) : Prop := k.natAbs < 10 ^ digitLimit

theorem readOptional_eq_ok_iff {raw : Option Text} {r : Option Int} :
    Table.readOptional raw = .ok r ↔ Readable raw ∧ r = (numeral? raw).map Numeral.value := by
  unfold Readable
  cases raw with
  | none => simp [Table.readOptional, numeral?, eq_comm]
  | some t =>
    have hr : numeral? (some t) = Numeral.ofText? (Text.trim t) := rfl
    rw [hr, Table.readOptional, Text.readInteger]
    cases hn : Numeral.ofText? (Text.trim t) with
    | none => simp [eq_comm]
    | some n => by_cases hl : n.digits.length ≤ digitLimit <;> simp [hl, eq_comm]

theorem map_readOptional_eq_ok_iff {α : Type} {f : Option Int → α} {raw : Option Text} {a : α} :
    (Table.readOptional raw).map f = .ok a ↔
      Readable raw ∧ a = f ((numeral? raw).map Numeral.value) := by
  have h := @readOptional_eq_ok_iff raw
  cases hr : Table.readOptional raw with
  | error e =>
    simp only [hr, reduceCtorEq, false_iff, not_and] at h
    refine iff_of_false (by simp [Except.map]) fun ⟨hread, _⟩ => h hread rfl
  | ok r =>
    obtain ⟨hread, rfl⟩ := (h (r := r)).mp hr
    simp only [Except.map, Except.ok.injEq, hread, true_and, eq_comm]

theorem exists_writeInteger_iff {k : Int} :
    (∃ t, Text.writeInteger k = .ok t) ↔ Writable k := by
  have hlen : (Text.ofNat k.natAbs).length ≤ digitLimit ↔ Writable k :=
    Nat.length_toDigits_le_iff (by decide) (by decide)
  unfold Text.writeInteger
  rw [← hlen]
  by_cases h : (Text.ofNat k.natAbs).length ≤ digitLimit <;> simp [h]

theorem exists_span_iff {raw : Option Text} : (∃ n, Table.span raw = .ok n) ↔ Readable raw := by
  unfold Table.span
  simp only [map_readOptional_eq_ok_iff, exists_and_left, exists_eq, and_true]

/-! ## Numbers that count repetitions -/

theorem repeated_eq_ok_iff {α : Type} {count : Nat} {result a : α} :
    repeated count result = .ok a ↔ count ≤ indexLimit ∧ result = a := by
  unfold repeated
  by_cases h : count ≤ indexLimit <;> simp [h]

/-- The columns that a readable attribute asks for. -/
def columnsOf (raw : Option Text) : Nat := max (((numeral? raw).map Numeral.value).getD 1).toNat 1

/-- A header cell can be followed by an empty one for each further column that it asks for. -/
def Widens (raw : Option Text) : Prop := Readable raw ∧ columnsOf raw - 1 ≤ indexLimit

theorem widening_eq_ok_iff {raw : Option Text} {n : Nat} :
    Table.widening raw = .ok n ↔ Widens raw ∧ n = columnsOf raw := by
  have hspan : ∀ m, Table.span raw = .ok m ↔ Readable raw ∧ m = columnsOf raw := fun m =>
    map_readOptional_eq_ok_iff
  unfold Table.widening Widens
  cases hs : Table.span raw with
  | error size =>
    refine iff_of_false (fun h => nomatch h) fun ⟨⟨hread, _⟩, _⟩ => ?_
    exact nomatch hs.symm.trans ((hspan _).mpr ⟨hread, rfl⟩)
  | ok m =>
    obtain ⟨hread, rfl⟩ := (hspan m).mp hs
    exact repeated_eq_ok_iff.trans (by rw [and_iff_right hread, eq_comm])

theorem exists_widening_iff {raw : Option Text} :
    (∃ n, Table.widening raw = .ok n) ↔ Widens raw := by
  simp only [widening_eq_ok_iff, exists_and_left, exists_eq, and_true]

/-- The backticks of a fence around the code can be counted. -/
def FenceFits (opts : Options) (code : Text) : Prop :=
  Markdown.fenceLength opts.minFence code ≤ indexLimit

instance (opts : Options) (code : Text) : Decidable (FenceFits opts code) := Nat.decLe ..

theorem succeeds_fence_iff {opts : Options} {code : Text} :
    (fence opts code).Succeeds ↔ FenceFits opts code := by
  rw [fence, FenceFits, Traced.succeeds_ofSized_iff]
  simp only [repeated_eq_ok_iff, and_true, exists_const]

theorem fence_eq_pure {opts : Options} {code : Text} (h : FenceFits opts code) :
    fence opts code = Traced.pure () := by
  rw [FenceFits] at h
  rw [fence, repeated, if_pos h]
  rfl

/-- What is certain once the fence is there comes out if the fence does. -/
theorem fence_bind_outcome {opts : Options} {code t : Text} {f : Unit → Traced Text}
    (h : (f ()).outcome = .ok t) :
    ((fence opts code).bind f).outcome = (fence opts code).outcome.map fun _ => t := by
  unfold Traced.bind
  cases (fence opts code).outcome with
  | error e => rfl
  | ok u => exact h

/-! ## Numerals that are too long -/

theorem digits?_replicate_nine (n : Nat) :
    Text.digits? (List.replicate (n + 1) '9') = some (List.replicate (n + 1) 9) := by
  have hmap : ∀ n, (List.replicate n '9').mapM Text.digit? = some (List.replicate n 9) := by
    intro n
    induction n with
    | zero => rfl
    | succ n ih =>
      rw [List.replicate_succ, List.mapM_cons, ih]
      rfl
  exact hmap (n + 1)

theorem not_readable_of_nines {n : Nat} (h : digitLimit ≤ n) :
    ¬ Readable (some (List.replicate (n + 1) '9')) := by
  have htrim : Text.trim (List.replicate (n + 1) '9') = List.replicate (n + 1) '9' := by
    apply Text.trim_of_none_blank
    intro c hc
    rw [List.eq_of_mem_replicate hc]
    rfl
  have hnumeral : numeral? (some (List.replicate (n + 1) '9')) =
      some ⟨false, List.replicate (n + 1) 9⟩ := by
    show Numeral.ofText? (Text.trim (List.replicate (n + 1) '9')) = _
    rw [htrim]
    show (Text.digits? (List.replicate (n + 1) '9')).map _ = _
    rw [digits?_replicate_nine]
    rfl
  intro hread
  have hlen := hread _ hnumeral
  rw [List.length_replicate] at hlen
  omega

/-! ## Lists -/

/-- The number that an item takes: its own or the one that is due. -/
def numberOf (due : Int) (item : Node) : Int :=
  ((numeral? (item.attribute? "value".toList)).map Numeral.value).getD due

/-- The items among the children of a numbered list have numbers that can be read and written. -/
def ItemsFit (due : Int) : List Node → Prop
  | [] => True
  | n :: ns =>
    if n.tag = "li".toList then
      Readable (n.attribute? "value".toList) ∧ Writable (numberOf due n) ∧
        ItemsFit (numberOf due n + 1) ns
    else ItemsFit due ns

/-- So has a numbered list with its start. -/
def ListFits (list : Node) : Prop :=
  Readable (list.attribute? "start".toList) ∧
    ItemsFit (((numeral? (list.attribute? "start".toList)).map Numeral.value).getD 1) list.children

/-! ## Tables -/

/-- The two span attributes of a cell, columns first. -/
abbrev Spans := Option Text × Option Text

def spansOf (c : Node) : Spans := (c.attribute? "colspan".toList, c.attribute? "rowspan".toList)

def isRow (row : Place) : Bool := row.tag == "tr".toList && row.node.children.any isCell

def spanRow (row : Place) : Row Spans :=
  ⟨isHeaderRow row.scope row.node.children,
    (row.children.filter fun c => isCell c.node).map fun c => spansOf c.node⟩

/-- The rows below a table with the spans of their cells. -/
def spanRows (table : Place) : List (Row Spans) :=
  (rowPlaces table).map fun row => ⟨row.header, row.cells.map fun c => spansOf c.node⟩

/-- The cells of the row that heads a table. -/
def headerCells {α : Type} : List (Row α) → List α
  | [] => []
  | first :: rest => (Table.splitHeader first rest).1.cells

/-- The spans that are read can be: all of them if a cell reaches over rows, those of the header, which
is widened by them, if cells only reach over columns, none otherwise. -/
def SpansFit (rows : List (Row Spans)) : Prop :=
  let cells := rows.flatMap Row.cells
  if cells.any (Table.isSignificantSpan ·.2) then ∀ c ∈ cells, Readable c.1 ∧ Readable c.2
  else if cells.any (Table.isSignificantSpan ·.1) then ∀ c ∈ headerCells rows, Widens c.1
  else True

/-- The numbers that an element by itself has the renderer read, write and count up to. -/
def NumbersFit (opts : Options) (p : Place) : Prop :=
  match p.node.role with
  | .list true => ListFits p.node
  | .table => (p.findTag? "table".toList).isSome = true ∨ SpansFit (spanRows p)
  | .preformatted => FenceFits opts p.code
  | .figure => ∀ parts ∈ Figure.parts? p, FenceFits opts parts.code
  | _ => True

/-! ## Lemmas -/

theorem spanRows_eq (table : Place) : spanRows table = (table.findAll isRow).map spanRow :=
  List.map_map ..

/-- Taking the header out commutes with a change of the cells. -/
theorem splitHeader_map {α β : Type} (f : Row α → Row β) (hf : ∀ r, (f r).header = r.header)
    (first : Row α) (rest : List (Row α)) :
    Table.splitHeader (f first) (rest.map f) =
      (f (Table.splitHeader first rest).1, (Table.splitHeader first rest).2.map f) := by
  unfold Table.splitHeader
  rw [hf]
  split
  · rfl
  · have hfind : (rest.map f).findIdx? Row.header = rest.findIdx? Row.header := by
      rw [List.findIdx?_map]
      congr 1
      funext r
      exact hf r
    rw [hfind]
    cases hi : rest.findIdx? Row.header with
    | none => rfl
    | some i =>
      simp only [List.getElem?_map, List.eraseIdx_map]
      cases rest[i]? with
      | none => rfl
      | some r => rfl

theorem headerCells_map {α β : Type} (f : α → β) (rows : List (Row α)) :
    headerCells (rows.map fun row => ⟨row.header, row.cells.map f⟩) = (headerCells rows).map f := by
  cases rows with
  | nil => rfl
  | cons first rest =>
    simp only [List.map_cons, headerCells]
    rw [splitHeader_map (fun row : Row α => (⟨row.header, row.cells.map f⟩ : Row β)) fun _ => rfl]

end Render

end Hypermark
