import SqlTables.Creation.Script
import SqlTables.Proofs.RoundTrip.Attributes

/-! Plain tables, of which a script for MySQL says everything there is to say, and what comes back
of a table with the options of the script. -/

namespace SqlTables

def ColumnType.isListed : ColumnType → Bool
  | .enum | .set => true
  | _ => false

theorem ColumnType.isListed_iff {t : ColumnType} : t.isListed = true ↔ t = .enum ∨ t = .set := by
  cases t <;> simp [isListed]

structure Field.PlainType (f : Field) : Prop where
  named : f.type.isCustom = false
  decimal : f.type.isDecimal = true → f.length = none ∧ (f.scale.isSome → f.precision.isSome)
  counted : f.type.isDecimal = false → f.precision = none ∧ (f.scale.isSome → f.length.isSome)
  varChar : f.type = .varChar → f.length.isSome ∧ f.scale = none
  listed : f.type.isListed = true → f.length = none ∧ f.scale = none
  members : f.members ≠ [] → f.type.isListed = true
  backslash : ∀ v ∈ f.members, '\\' ∉ v.toList
  sign : f.unsigned = true ∨ f.zerofill = true → f.type.acceptsSign = true

/-- Whether a column is printed whole, key flags aside, which the keys of the table stand for. -/
structure Field.Plain (f : Field) : Prop extends f.PlainType where
  default : ∀ v, f.default = some v → PlainDefault f.type v
  onUpdate : ∀ v, f.onUpdate = some v → v = "CURRENT_TIMESTAMP"
  indexed : f.indexed = false
  unique : f.inPrimaryKey = true → f.unique = false
  autoIncrement : f.autoIncrement = true → f.inPrimaryKey = true

/-- Whether the expression of a check stands alone: in parentheses it holds no comment, leaves no
literal or group open and no statement ends in it, and no blanks surround it. -/
structure Check.Plain (c : Check) : Prop where
  uncommented : ∀ m ∈ Source.mark true (c.expression.toList ++ [')']), m.2 ≠ .comment
  closed : (Source.mark true (c.expression.toList ++ [')'])).getLast? = some (')', .code)
  tokens : ∃ ts last, Token.tokenize c.expression = .ok (ts ++ [last]) ∧
    nesting? 0 ts = some 0 ∧ (∀ t ∈ ts.head?, t.gap = "") ∧ last.gap = ""

def referenceActions : List String :=
  ["CASCADE", "RESTRICT", "SET NULL", "SET DEFAULT", "NO ACTION"]

structure ForeignKey.Plain (k : ForeignKey) : Prop where
  fields : k.fields ≠ []
  onDelete : ∀ a, k.onDelete = some a → a ∈ referenceActions
  onUpdate : ∀ a, k.onUpdate = some a → a ∈ referenceActions

namespace Table

structure Plain (t : Table) : Prop where
  valid : t.validate = .ok ()
  name : '\n' ∉ t.name.toList
  nonempty : t.fields ≠ []
  fields : ∀ f ∈ t.fields, f.Plain
  indexes : ∀ i ∈ t.indexes, i.fields ≠ []
  /-- A unique key of one column would come back as the column's flag, but for the primary key. -/
  uniqueKeys : ∀ i ∈ t.indexes, ∀ column, i.isUniqueOn column = true →
    ∃ f ∈ t.fields, f.name = column ∧ f.inPrimaryKey = true
  foreignKeys : ∀ k ∈ t.foreignKeys, k.Plain
  checks : ∀ c ∈ t.checks, c.Plain

def effectiveEngine (o : Options) (t : Table) : String := (t.engine.or o.engine).getD "InnoDB"

def bareSettings (o : Options) (t : Table) : List String :=
  [effectiveEngine o t]
    ++ (if o.includeCharset then [t.charset.getD o.charset, t.collation.getD o.collation] else [])
    ++ t.rowFormat.toList ++ t.tableSpace.toList

end Table

def Field.written (o : Options) (f : Field) : Field :=
  let asText := f.type == .json && !o.nativeJson
  { f with
    type := if asText then .longText else f.type
    length := if asText then none else f.length
    scale := if asText then none else f.scale
    autoIncrement := f.autoIncrement && o.includeAutoIncrement
    comment := if o.includeComments then f.comment else none }

def Table.written (o : Options) (t : Table) : Table :=
  { t with
    comment := if o.includeComments then t.comment else none
    engine := some (t.effectiveEngine o)
    charset := if o.includeCharset then some (t.charset.getD o.charset) else none
    collation := if o.includeCharset then some (t.collation.getD o.collation) else none
    autoIncrementStart := if o.includeAutoIncrement then t.autoIncrementStart else none
    fields := t.fields.map (Field.written o) }

/-- Whether a script with the options leaves out nothing of the table but its settings. -/
structure Table.Kept (o : Options) (t : Table) : Prop where
  comments : o.includeComments = true
  autoIncrement : o.includeAutoIncrement = true
  json : o.nativeJson = true ∨ ∀ f ∈ t.fields, f.type ≠ .json

variable {o : Options} {t : Table}

theorem Field.written_of_kept {f : Field} (hc : o.includeComments = true)
    (ha : o.includeAutoIncrement = true) (hj : o.nativeJson = true ∨ f.type ≠ .json) :
    f.written o = f := by
  have htext : (f.type == .json && !o.nativeJson) = false := by
    rcases hj with hj | hj
    · simp [hj]
    · simp [hj]
  simp [written, htext, hc, ha]

theorem Table.fields_written (h : t.Kept o) : (t.written o).fields = t.fields := by
  have hf (f : Field) (hf : f ∈ t.fields) : f.written o = f :=
    Field.written_of_kept h.comments h.autoIncrement (h.json.imp id fun hj => hj f hf)
  change t.fields.map (Field.written o) = t.fields
  rw [List.map_congr_left hf, List.map_id']

theorem defaultText_json (v : String) :
    Dialect.mysql.defaultText .json v = Dialect.mysql.defaultText .longText v := by
  have hs : Dialect.hasStringDefaults .json = Dialect.hasStringDefaults .longText := rfl
  have ht : Dialect.hasStringDefaults .longText = true := rfl
  simp [Dialect.defaultText, hs, ht]

theorem Field.Plain.written {f : Field} (h : f.Plain) (o : Options) : (f.written o).Plain := by
  by_cases hj : (f.type == .json && !o.nativeJson) = true
  · have htype : f.type = .json := by
      rw [Bool.and_eq_true, beq_iff_eq] at hj
      exact hj.1
    have hnone : f.precision = none := (h.counted (by rw [htype]; rfl)).1
    have hmembers : f.members = [] := by
      by_contra hm
      have hl := h.members hm
      rw [htype] at hl
      exact absurd hl (by decide)
    have hsign : ¬(f.unsigned = true ∨ f.zerofill = true) := by
      intro hs
      have ha := h.sign hs
      rw [htype] at ha
      exact absurd ha (by decide)
    refine ⟨⟨?_, ?_, ?_, ?_, ?_, ?_, ?_, ?_⟩, ?_, h.onUpdate, h.indexed, h.unique, ?_⟩
      <;> simp only [Field.written, hj, if_true]
    · rfl
    · simp [ColumnType.isDecimal]
    · simp [hnone]
    · simp
    · simp [ColumnType.isListed]
    · simp [hmembers]
    · simp [hmembers]
    · exact fun hs => absurd hs hsign
    · intro v hv
      have hd := h.default v hv
      rwa [htype, PlainDefault, defaultText_json] at hd
    · intro ha
      rw [Bool.and_eq_true] at ha
      exact h.autoIncrement ha.1
  · have hkeep : f.written o = { f with
        autoIncrement := f.autoIncrement && o.includeAutoIncrement
        comment := if o.includeComments then f.comment else none } := by
      simp [Field.written, hj]
    rw [hkeep]
    refine { h with autoIncrement := fun ha => ?_ }
    rw [Bool.and_eq_true] at ha
    exact h.autoIncrement ha.1

end SqlTables
