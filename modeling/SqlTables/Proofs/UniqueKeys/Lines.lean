import SqlTables.Proofs.RoundTrip.Definition

/-! The lines of a table of integers as they are written for PostgreSQL, each a clause when it is
read back, and the statements that create its other indexes. -/

namespace SqlTables

open Declaration Lexeme
open Text (Position)
open Creation (columnDefinition effectiveField)

variable {f : Field} {o : Options}

def integerName (o : Options) (f : Field) : String :=
  if (effectiveField o f).autoIncrement then "SERIAL" else "INTEGER"

def nullParts (f : Field) : List (List Lexeme × Attribute) :=
  if f.nullable then [] else [([word [' '] "NOT", word [' '] "NULL"], .nullable false)]

def integerLexemes (o : Options) (f : Field) : List Lexeme :=
  name .postgresql lineGap f.name :: word [' '] (integerName o f) :: (nullParts f).flatMap (·.1)

def integerColumn (o : Options) (f : Field) : Column :=
  ⟨f.name, ⟨.int, (effectiveField o f).autoIncrement, []⟩, (nullParts f).map (·.2)⟩

theorem spells_nullParts (f : Field) : ∀ b ∈ nullParts f, Spells b.1 b.2 := by
  unfold nullParts
  split_ifs
  · simp
  · simpa using spells_notNull

theorem read?_integerName (o : Options) (f : Field) (p : Position) {ts : List Token}
    (h : group? ts = none) : DeclaredType.read? ((word [' '] (integerName o f)).token p :: ts) =
      some (⟨.int, (effectiveField o f).autoIncrement, []⟩, ts) := by
  have hupper : Text.upperCase "SERIAL" = "SERIAL" ∧ Text.upperCase "INTEGER" = "INTEGER" := by
    decide +kernel
  have htype : ColumnType.ofName "INTEGER" = .int := by decide +kernel
  cases ha : (effectiveField o f).autoIncrement <;>
    simp [integerName, ha, DeclaredType.read?, DeclaredType.name?, take?, word, token, hupper,
      DeclaredType.longNames, DeclaredType.readParameters, h, DeclaredType.skipZone,
      DeclaredType.serialType?, htype]

theorem read?_integerLexemes (o : Options) (f : Field) (p : Position) :
    Column.read? (tokensAt p (integerLexemes o f)) = some (integerColumn o f, true) := by
  have hopens : OpensAttribute ((nullParts f).flatMap (·.1)) :=
    .flatMap fun b hb => (spells_nullParts f b hb).opensAttribute
  have hname (q : Position) (rest : List Lexeme) : Declaration.name?
      (tokensAt q (name .postgresql lineGap f.name :: rest)) =
        some (f.name, tokensAt (q.advance (name .postgresql lineGap f.name).chars) rest) := rfl
  rw [integerLexemes, Column.read?, hname, tokensAt_cons]
  simp only [Option.bind_eq_bind, Option.bind_some,
    read?_integerName o f _ (hopens.group?_eq_none _), readAll_tokensAt (spells_nullParts f)]
  rfl

theorem declares_integer (h : Dialect.postgresql.Quotes f.name) (o : Options) :
    Declares (integerLexemes o f) (.column (integerColumn o f)) := by
  have hname : Sealed [name .postgresql lineGap f.name] :=
    (tight_name h gap_line).sealed (by simp [name, lineGap])
  have htype : Sealed [word [' '] (integerName o f)] := by
    unfold integerName
    split_ifs <;> exact sealed_word (by decide) gap_space (by simp)
  have hattributes : Sealed ((nullParts f).flatMap (·.1)) :=
    .flatMap fun b hb => (spells_nullParts f b hb).sealed
  refine ⟨hname.append (htype.append hattributes), fun p => enclosed_of_isPart ?_ p, fun p => ?_⟩
  · rw [integerLexemes, List.forall_mem_cons, List.forall_mem_cons]
    refine ⟨rfl, rfl, fun w hw => ?_⟩
    obtain ⟨b, hb, hw⟩ := List.mem_flatMap.1 hw
    exact (spells_nullParts f b hb).parts w hw
  · have hread : Clause.read (tokensAt p (integerLexemes o f)) =
        .ofColumn (Column.read? (tokensAt p (integerLexemes o f))) := rfl
    rw [hread, read?_integerLexemes]
    rfl

theorem textOf_integerLexemes (ho : o.dialect = .postgresql) (t : Table) (ht : f.type = .int)
    (hd : f.default = none) : textOf (integerLexemes o f) =
      lineGap ++ ((columnDefinition o t f).render .postgresql).toList := by
  have htype : o.dialect.physicalType o.nativeJson (effectiveField o f) = integerName o f := by
    have hint : (effectiveField o f).type = .int := ht
    rw [ho, Dialect.physicalType, Dialect.postgresqlType, hint]
    rfl
  have hdefault : (effectiveField o f).default = none := hd
  have hoptions (g : Field) : Creation.columnOptions o t g = [] := by
    rw [Creation.columnOptions, ho]
  rw [columnDefinition, Script.ColumnDefinition.render, htype, hdefault, hoptions]
  unfold integerLexemes nullParts effectiveField
  cases hn : f.nullable <;> simp [name, word, Script.given]

def uniqueLexemes (constraint : Option String) (columns : List String) : List Lexeme :=
  constraintOpening .postgresql "UNIQUE" constraint ++ names .postgresql columns

theorem declares_unique {constraint : Option String} {columns : List String} (h : columns ≠ [])
    (hn : ∀ n ∈ constraint, Dialect.postgresql.Quotes n)
    (hc : ∀ column ∈ columns, Dialect.postgresql.Quotes column) :
    Declares (uniqueLexemes constraint columns) (.index .unique constraint columns) := by
  have hopening : Sealed (constraintOpening .postgresql "UNIQUE" constraint) :=
    sealed_constraintOpening (by decide) hn
  refine ⟨hopening.append (sealed_names hc), fun p => ?_, fun p => ?_⟩
  · rw [uniqueLexemes, tokensAt_append]
    exact (enclosed_of_isPart (fun w => isPart_of_mem_constraintOpening) p).append
      (enclosed_names .postgresql columns _)
  · have hread (q : Position) : Clause.read (tokensAt p
        (constraintOpening .postgresql "UNIQUE" constraint) ++
          tokensAt q (names .postgresql columns)) =
        .ofOption ((Clause.columns? (tokensAt q (names .postgresql columns))).bind
          fun columns => some (.index .unique constraint columns.1)) := by
      cases constraint <;> rfl
    obtain ⟨q, hcolumns⟩ := columns?_names h
      (p.advance (textOf (constraintOpening .postgresql "UNIQUE" constraint))) []
    rw [List.append_nil] at hcolumns
    rw [uniqueLexemes, tokensAt_append, hread, hcolumns]
    rfl

theorem textOf_uniqueLexemes (constraint : Option String) (columns : List String) :
    textOf (uniqueLexemes constraint columns) =
      lineGap ++ ((Script.Constraint.unique constraint columns).render .postgresql).toList := by
  cases constraint <;> simp [uniqueLexemes, constraintOpening, textOf_names, word, name,
    Script.Constraint.render, Script.constraintName, Script.given]

def methodWords : Option String → List String
  | some method => ["USING", method]
  | none => []

def indexLexemes (i : Script.CreateIndex) : List Lexeme :=
  word ['\n'] "CREATE" ::
    (words (if i.ifNotExists then ["INDEX", "IF", "NOT", "EXISTS"] else ["INDEX"])
      ++ ([name .postgresql [' '] i.name] ++ (words ["ON"] ++ ([name .postgresql [' '] i.table]
        ++ (words (methodWords i.method) ++ (names .postgresql i.columns ++ [mark [] ';']))))))

theorem sealed_indexLexemes {i : Script.CreateIndex} (hn : Dialect.postgresql.Quotes i.name)
    (ht : Dialect.postgresql.Quotes i.table)
    (hc : ∀ column ∈ i.columns, Dialect.postgresql.Quotes column)
    (hm : ∀ method ∈ i.method, isBareWord method = true) : Sealed (indexLexemes i) := by
  have hopening : Sealed [word ['\n'] "CREATE"] :=
    sealed_word (by decide) (by decide) (by decide)
  have hwords : Sealed (words (if i.ifNotExists then ["INDEX", "IF", "NOT", "EXISTS"]
      else ["INDEX"])) := by
    split_ifs <;> exact sealed_words (by decide)
  have hmethod : Sealed (words (methodWords i.method)) := by
    cases hi : i.method with
    | none => exact .nil
    | some method =>
      refine sealed_words (List.forall_mem_cons.2 ⟨by decide, ?_⟩)
      simpa using hm method hi
  exact hopening.append (hwords.append ((sealed_name hn).append ((sealed_words (by decide)).append
    ((sealed_name ht).append (hmethod.append ((sealed_names hc).append
      (sealed_mark (by decide) gap_nil)))))))

theorem textOf_indexLexemes (i : Script.CreateIndex) :
    textOf (indexLexemes i) = '\n' :: (i.render .postgresql).toList := by
  unfold Script.CreateIndex.render
  cases he : i.ifNotExists <;> cases hm : i.method <;>
    simp [indexLexemes, methodWords, textOf_words, textOf_names, word, name, mark, Script.given,
      he, hm]

end SqlTables
