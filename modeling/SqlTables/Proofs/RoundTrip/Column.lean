import SqlTables.Declaration.Column
import SqlTables.Proofs.RoundTrip.Plain
import SqlTables.Proofs.Schema.ColumnType
import SqlTables.Proofs.Schema.Resettling

/-! Columns as they are written in MySQL and as they are read back: the name, the type with its
parameters, and the attributes. -/

namespace SqlTables

open Declaration Lexeme

variable {g : Field} {p : Text.Position} {rest ws : List Lexeme} {ts : List Token}

namespace Field

def firstSize (g : Field) : Option UInt32 := if g.type.isDecimal then g.precision else g.length

def sizes (g : Field) : List UInt32 := g.firstSize.toList ++ g.scale.toList

def parameterLexemes (g : Field) : List Lexeme :=
  g.sizes.map (fun n => number [] (toString n.toNat)) ++ g.members.map (member [])

def parameterGroup (g : Field) : List Lexeme :=
  if g.type.isListed || !g.sizes.isEmpty then group [] (separated g.parameterLexemes) else []

def typeLexemes (g : Field) : List Lexeme := word [' '] g.type.name :: g.parameterGroup

/-- The parameters as they are read back. An empty list of members is read as one part of a kind
unknown. -/
def parameters (g : Field) : List TypeParameter :=
  if g.type.isListed && g.members.isEmpty then [.unknown]
  else g.sizes.map .size ++ g.members.map .member

end Field

theorem scale_of_firstSize (h : g.PlainType) (hs : g.scale.isSome = true) :
    g.firstSize.isSome = true := by
  unfold Field.firstSize
  split_ifs with hd
  · exact (h.decimal hd).2 hs
  · exact (h.counted (by simpa using hd)).2 hs

theorem sizes_of_listed (h : g.PlainType) (hl : g.type.isListed = true) : g.sizes = [] := by
  have hd : g.type.isDecimal = false := by
    rcases ColumnType.isListed_iff.1 hl with ht | ht <;> rw [ht] <;> rfl
  obtain ⟨hlength, hscale⟩ := h.listed hl
  simp [Field.sizes, Field.firstSize, hd, hlength, hscale]

theorem members_of_not_listed (h : g.PlainType) (hl : g.type.isListed = false) :
    g.members = [] := by
  by_contra hm
  rw [h.members hm] at hl
  exact absurd hl (by simp)

theorem textOf_separated_map {α : Type} {f : α → Lexeme} {write : α → String}
    (h : ∀ a, (f a).chars = (write a).toList) (xs : List α) :
    textOf (separated (xs.map f)) = (",".intercalate (xs.map write)).toList := by
  cases xs with
  | nil => rfl
  | cons x xs =>
    have hall : (fun a => ',' :: (f a).chars) = fun a => [','] ++ (write a).toList := by
      funext a
      rw [h]
      rfl
    rw [List.map_cons, textOf_separated, h, List.flatMap_map, hall, String.toList_intercalate,
      List.map_map, List.map_cons, intercalate_cons, List.flatMap_map]
    rfl

theorem textOf_group (gap : List Char) (ws : List Lexeme) :
    textOf (group gap ws) = gap ++ '(' :: textOf ws ++ [')'] := by
  simp [group, mark]

theorem mysqlBaseType_of_not_listed (h : g.PlainType) (hl : g.type.isListed = false) :
    Dialect.mysqlBaseType true g = Dialect.withSizes g.type.name g.firstSize g.scale := by
  have hparameters : Dialect.withParameters g.type.name g =
      Dialect.withSizes g.type.name g.firstSize g.scale := by
    unfold Dialect.withParameters Field.firstSize
    split_ifs with hd
    · rw [Field.effectivePrecision, (h.decimal hd).1, Option.or_none]
    · rfl
  rw [← hparameters]
  unfold Dialect.mysqlBaseType
  split
  · rename_i ht
    obtain ⟨hlength, hscale⟩ := h.varChar ht
    obtain ⟨n, hn⟩ := Option.isSome_iff_exists.1 hlength
    simp [Dialect.varCharOf, Dialect.withParameters, hn, hscale, Dialect.withSizes, ht,
      ColumnType.name, ColumnType.isDecimal]
  · rename_i ht
    rw [ht]
    rfl
  · rename_i ht
    rw [ht] at hl
    exact absurd hl (by decide)
  · rename_i ht
    rw [ht] at hl
    exact absurd hl (by decide)
  · rfl

theorem textOf_typeLexemes (h : g.PlainType) :
    textOf g.typeLexemes = ' ' :: (Dialect.mysqlBaseType true g).toList := by
  cases hl : g.type.isListed with
  | true =>
    have hmembers : textOf (separated g.parameterLexemes) =
        (",".intercalate (g.members.map fun v => Dialect.enclose '\x27' v.toList)).toList := by
      rw [Field.parameterLexemes, sizes_of_listed h hl]
      apply textOf_separated_map
      intro v
      rw [chars_member, List.nil_append]
    rcases ColumnType.isListed_iff.1 hl with ht | ht
    all_goals
      simp [Field.typeLexemes, Field.parameterGroup, textOf_group, hmembers, ht, word,
        ColumnType.isListed, Dialect.mysqlBaseType, Dialect.memberList, ColumnType.name]
  | false =>
    have hscale := scale_of_firstSize h
    have hsizes : textOf (separated g.parameterLexemes) =
        (",".intercalate (g.sizes.map fun n => toString n.toNat)).toList := by
      rw [Field.parameterLexemes, members_of_not_listed h hl, List.map_nil, List.append_nil]
      apply textOf_separated_map
      intro n
      rw [chars_number, List.nil_append]
    rw [mysqlBaseType_of_not_listed h hl, Field.typeLexemes, Field.parameterGroup, hl, textOf_cons]
    cases hf : g.firstSize with
    | none =>
      have hs : g.scale = none := by
        cases hs : g.scale with
        | none => rfl
        | some s => simp [hf, hs] at hscale
      simp [Field.sizes, hf, hs, Dialect.withSizes, word]
    | some n =>
      cases hs : g.scale with
      | none =>
        simp [Field.sizes, hf, hs, textOf_group, hsizes, Dialect.withSizes, Dialect.sized, word]
      | some s => simp [Field.sizes, hf, hs, textOf_group, hsizes, Dialect.withSizes, word]

def EndsType (ts : List Token) : Prop :=
  ∀ w ∈ ["PRECISION", "VARYING", "WITH", "WITHOUT"], keyword? w ts = none

theorem OpensAttribute.endsType (h : OpensAttribute rest) (p : Text.Position) :
    EndsType (tokensAt p rest) := by
  have hwords : ∀ w ∈ ["PRECISION", "VARYING", "WITH", "WITHOUT"], ∀ s ∈ attributeOpenings,
      Text.sameKeyword s w = false := by decide
  exact fun w hw => h.keyword?_eq_none (hwords w hw) p

theorem endsType_group (gap : List Char) (ws : List Lexeme) (p : Text.Position) :
    EndsType (tokensAt p (group gap ws ++ rest)) := fun _ _ => rfl

theorem isBareWord_name {type : ColumnType} (hn : type.isCustom = false) :
    isBareWord type.name = true := by
  cases type <;> first | decide | exact absurd hn (by simp [ColumnType.isCustom])

theorem serialType?_name {type : ColumnType} (hn : type.isCustom = false) :
    DeclaredType.serialType? type.name = none := by
  cases type <;> first | rfl | exact absurd hn (by simp [ColumnType.isCustom])

theorem name?_type {type : ColumnType} (hn : type.isCustom = false) (h : EndsType ts)
    (gap : List Char) (p : Text.Position) :
    DeclaredType.name? ((word gap type.name).token p :: ts) = some (type.name, ts) := by
  have hprecision := h "PRECISION" (by simp)
  have hvarying := h "VARYING" (by simp)
  have hname (s : String) (hs : Text.upperCase s = s) :
      DeclaredType.name? ((word gap s).token p :: ts) =
        some ((DeclaredType.longNames.findSome? fun n =>
          if s = n.1 then (keyword? n.2.1 ts).map (n.2.2, ·) else none).getD (s, ts)) := by
    change some ((DeclaredType.longNames.findSome? fun n =>
      if Text.upperCase s = n.1 then (keyword? n.2.1 ts).map (n.2.2, ·) else none).getD
        (Text.upperCase s, ts)) = _
    rw [hs]
  have hlong (s : String) : (DeclaredType.longNames.findSome? fun n =>
      if s = n.1 then (keyword? n.2.1 ts).map (n.2.2, ·) else none) = none := by
    simp [DeclaredType.longNames, hprecision, hvarying]
  rw [hname _ (upperCase_name hn), hlong]
  rfl

theorem skipZone_of_endsType (h : EndsType ts) (name : String) :
    DeclaredType.skipZone name ts = ts := by
  have hwith := h "WITH" (by simp)
  have hwithout := h "WITHOUT" (by simp)
  unfold DeclaredType.skipZone
  split_ifs
  · simp [skipOneOf, keywords?, hwith, hwithout]
  · rfl

def parameterOfKind (k : TokenKind) : TypeParameter := TypeParameter.read [⟨"", k, "", .start⟩]

theorem parameterOfKind_number (n : UInt32) :
    parameterOfKind (number [] (toString n.toNat)).kind = .size n := by
  simp only [parameterOfKind, TypeParameter.read, number, uint32?_toString n]

theorem read_separated (hne : ws ≠ []) (h : ∀ w ∈ ws, w.kind.isPart = true) (p : Text.Position) :
    (splitCommas 0 (tokensAt p (separated ws))).map TypeParameter.read =
      (ws.map (·.kind)).map parameterOfKind := by
  obtain ⟨w, ws, rfl⟩ := List.exists_cons_of_ne_nil hne
  obtain ⟨ts, hkinds, hts⟩ := splitCommas_separated h p
  rw [hts, List.map_map, ← hkinds, List.map_map]
  rfl

theorem kind_parameterLexemes (g : Field) :
    (g.parameterLexemes.map (·.kind)).map parameterOfKind =
      g.sizes.map .size ++ g.members.map .member := by
  have hsize : (fun n : UInt32 => parameterOfKind (number [] (toString n.toNat)).kind) = .size :=
    funext parameterOfKind_number
  have hmember : (fun v : String => parameterOfKind (member [] v).kind) = .member := rfl
  rw [Field.parameterLexemes, List.map_append, List.map_append, List.map_map, List.map_map,
    List.map_map, List.map_map, ← hsize, ← hmember]
  rfl

theorem isPart_of_mem_parameterLexemes {w : Lexeme} (h : w ∈ g.parameterLexemes) :
    w.kind.isPart = true := by
  rcases List.mem_append.1 h with h | h
  all_goals
    obtain ⟨a, _, rfl⟩ := List.mem_map.1 h
    rfl

theorem read_parameterLexemes (h : g.PlainType)
    (hn : (g.type.isListed || !g.sizes.isEmpty) = true) (p : Text.Position) :
    (splitCommas 0 (tokensAt p (separated g.parameterLexemes))).map TypeParameter.read =
      g.parameters := by
  cases hw : g.parameterLexemes with
  | nil =>
    -- the parentheses of a type that lists no members are read as one unknown parameter
    rw [Field.parameterLexemes, List.append_eq_nil_iff, List.map_eq_nil_iff,
      List.map_eq_nil_iff] at hw
    have hl : g.type.isListed = true := by simpa [hw.1] using hn
    rw [Field.parameters, hl, hw.2]
    rfl
  | cons w ws =>
    have hparameters : g.parameters = g.sizes.map .size ++ g.members.map .member := by
      unfold Field.parameters
      split_ifs with hl
      · rw [Bool.and_eq_true, List.isEmpty_iff] at hl
        rw [Field.parameterLexemes, sizes_of_listed h hl.1, hl.2] at hw
        simp at hw
      · rfl
    have hne : g.parameterLexemes ≠ [] := by simp [hw]
    rw [← hw, read_separated hne fun v => isPart_of_mem_parameterLexemes, kind_parameterLexemes,
      hparameters]

theorem readParameters_tokensAt (h : g.PlainType) (hr : OpensAttribute rest) (p : Text.Position) :
    ∃ q, DeclaredType.readParameters (tokensAt p (g.parameterGroup ++ rest)) =
      (g.parameters, tokensAt q rest) := by
  unfold Field.parameterGroup
  split_ifs with hn
  · have hparts := nesting?_tokensAt (isInner_of_mem_separated fun w =>
      @isPart_of_mem_parameterLexemes g w)
    obtain ⟨group, q, q', hgroup, hinside⟩ := group?_tokensAt hparts p [] rest
    refine ⟨q, ?_⟩
    rw [DeclaredType.readParameters, hgroup]
    simp only [hinside, read_parameterLexemes h hn]
  · have hnone : g.parameters = [] := by
      rw [Bool.or_eq_true, not_or, Bool.not_eq_true, Bool.not_eq_true] at hn
      have hsizes : g.sizes = [] := by simpa using hn.2
      rw [Field.parameters, hn.1, hsizes, members_of_not_listed h hn.1]
      rfl
    refine ⟨p, ?_⟩
    rw [List.nil_append, DeclaredType.readParameters, hr.group?_eq_none, hnone]

theorem endsType_parameterGroup (hr : OpensAttribute rest) (p : Text.Position) :
    EndsType (tokensAt p (g.parameterGroup ++ rest)) := by
  unfold Field.parameterGroup
  split_ifs
  · exact endsType_group [] _ p
  · exact hr.endsType p

theorem read?_typeLexemes (h : g.PlainType) (hr : OpensAttribute rest) (p : Text.Position) :
    ∃ q, DeclaredType.read? (tokensAt p (g.typeLexemes ++ rest)) =
      some (⟨g.type, false, g.parameters⟩, tokensAt q rest) := by
  have hn := h.named
  have hname := name?_type hn (@endsType_parameterGroup g _ hr
    (p.advance (word [' '] g.type.name).chars)) [' '] p
  obtain ⟨q, hparameters⟩ := readParameters_tokensAt h hr
    (p.advance (word [' '] g.type.name).chars)
  refine ⟨q, ?_⟩
  rw [Field.typeLexemes, List.cons_append, tokensAt_cons, DeclaredType.read?, hname]
  simp [hparameters, skipZone_of_endsType (hr.endsType q), serialType?_name hn,
    ofName_name hn]

namespace Field

def attributeParts (g : Field) : List (List Lexeme × Attribute) :=
  (if g.unsigned then [([word [' '] "UNSIGNED"], .unsigned true)] else [])
    ++ (if g.zerofill then [([word [' '] "ZEROFILL"], .zerofill)] else [])
    ++ (if g.nullable then [] else [([word [' '] "NOT", word [' '] "NULL"], .nullable false)])
    ++ g.default.toList.map (fun v =>
      ([word [' '] "DEFAULT", defaultLexeme g.type v], .default v))
    ++ (if g.autoIncrement then [([word [' '] "AUTO_INCREMENT"], .autoIncrement)] else [])
    ++ g.onUpdate.toList.map (fun v =>
      ([word [' '] "ON", word [' '] "UPDATE", word [' '] v], .onUpdate v))
    ++ g.comment.toList.map fun v => ([word [' '] "COMMENT", string [' '] v], .comment v)

def attributeLexemes (g : Field) : List Lexeme := g.attributeParts.flatMap (·.1)

def column (g : Field) : Column :=
  ⟨g.name, ⟨g.type, false, g.parameters⟩, g.attributeParts.map (·.2)⟩

end Field

theorem spells_attributeParts (h : g.Plain) : ∀ b ∈ g.attributeParts, Spells b.1 b.2 := by
  intro b hb
  simp only [Field.attributeParts, List.mem_append, List.mem_map, Option.mem_toList,
    List.mem_ite_nil_right, List.mem_ite_nil_left, List.mem_singleton] at hb
  rcases hb with (((((⟨_, rfl⟩ | ⟨_, rfl⟩) | ⟨_, rfl⟩) | ⟨v, hv, rfl⟩) | ⟨_, rfl⟩) | ⟨v, hv, rfl⟩) |
    ⟨v, _, rfl⟩
  · exact spells_unsigned
  · exact spells_zerofill
  · exact spells_notNull
  · exact spells_default (h.default v hv)
  · exact spells_autoIncrement
  · rw [h.onUpdate v hv]
    exact spells_onUpdate (by decide)
  · exact spells_comment v

theorem filterMap_parameters (h : g.PlainType) :
    g.parameters.filterMap TypeParameter.size? = g.sizes ∧
      g.parameters.filterMap TypeParameter.member? = g.members := by
  unfold Field.parameters
  split_ifs with hl
  · rw [Bool.and_eq_true, List.isEmpty_iff] at hl
    rw [sizes_of_listed h hl.1, hl.2]
    exact ⟨rfl, rfl⟩
  · simp [List.filterMap_append, Function.comp_def, TypeParameter.size?, TypeParameter.member?]

theorem getElem?_sizes (h : g.PlainType) : g.sizes[0]? = g.firstSize ∧ g.sizes[1]? = g.scale := by
  have hscale := scale_of_firstSize h
  rw [Field.sizes]
  cases hf : g.firstSize with
  | none =>
    cases hs : g.scale with
    | none => simp
    | some s => simp [hf, hs] at hscale
  | some n => cases hs : g.scale <;> simp

theorem bareField_column (h : g.PlainType) : g.column.bareField =
    { name := g.name, type := g.type, length := g.length, precision := g.precision,
      scale := g.scale, members := g.members } := by
  obtain ⟨hsizes, hmembers⟩ := filterMap_parameters h
  obtain ⟨hfirst, hsecond⟩ := getElem?_sizes h
  have hlength : (if g.type.isDecimal then none else g.firstSize) = g.length := by
    unfold Field.firstSize
    split_ifs with hd
    · exact (h.decimal hd).1.symm
    · rfl
  have hprecision : (if g.type.isDecimal then g.firstSize else none) = g.precision := by
    unfold Field.firstSize
    split_ifs with hd
    · rfl
    · exact (h.counted (by simpa using hd)).1.symm
  simp only [Column.bareField, Field.column, hsizes, hmembers, hfirst, hsecond, hlength, hprecision]

theorem field_column (h : g.Plain) : g.column.field = g.unkeyed := by
  have hindexed := h.indexed
  rw [Column.field, bareField_column h.toPlainType]
  change (g.attributeParts.map (·.2)).foldl Attribute.apply _ = _
  obtain ⟨name, type, length, precision, scale, nullable, default, comment, inPrimaryKey,
    autoIncrement, unique, indexed, unsigned, zerofill, members, onUpdate⟩ := g
  subst hindexed
  -- every attribute sets a member of its own
  cases unsigned <;> cases zerofill <;> cases nullable <;> cases default <;> cases autoIncrement <;>
    cases onUpdate <;> cases comment <;> rfl

def Field.options (g : Field) : List Script.ColumnOption :=
  (if g.autoIncrement then [.autoIncrement] else []) ++ g.onUpdate.toList.map .onUpdate
    ++ g.comment.toList.map .comment

theorem textOf_attributeLexemes (h : g.Plain) : textOf g.attributeLexemes =
    ((if g.unsigned then " UNSIGNED" else "") ++ (if g.zerofill then " ZEROFILL" else "")
      ++ (if g.nullable then "" else " NOT NULL")
      ++ Script.given (" DEFAULT " ++ ·) (g.default.map (Dialect.mysql.defaultText g.type))
      ++ String.join (g.options.map fun o => " " ++ o.render .mysql)).toList := by
  have hunsigned : textOf ((if g.unsigned then
      [([word [' '] "UNSIGNED"], Attribute.unsigned true)] else []).flatMap (·.1)) =
        (if g.unsigned then " UNSIGNED" else "").toList := by
    split_ifs <;> rfl
  have hzerofill : textOf ((if g.zerofill then
      [([word [' '] "ZEROFILL"], Attribute.zerofill)] else []).flatMap (·.1)) =
        (if g.zerofill then " ZEROFILL" else "").toList := by
    split_ifs <;> rfl
  have hnullable : textOf ((if g.nullable then [] else
      [([word [' '] "NOT", word [' '] "NULL"], Attribute.nullable false)]).flatMap (·.1)) =
        (if g.nullable then "" else " NOT NULL").toList := by
    split_ifs <;> rfl
  have hdefault : textOf ((g.default.toList.map fun v =>
      ([word [' '] "DEFAULT", defaultLexeme g.type v], Attribute.default v)).flatMap (·.1)) =
        (Script.given (" DEFAULT " ++ ·)
          (g.default.map (Dialect.mysql.defaultText g.type))).toList := by
    cases hd : g.default with
    | none => rfl
    | some v =>
      have hv := chars_defaultLexeme (h.default v hd)
      simp only [chars] at hv
      simp [Script.given, word, hv]
  have hoptions : textOf ((if g.autoIncrement then
      [([word [' '] "AUTO_INCREMENT"], Attribute.autoIncrement)] else []).flatMap (·.1)) ++
      textOf ((g.onUpdate.toList.map fun v => ([word [' '] "ON", word [' '] "UPDATE", word [' '] v],
        Attribute.onUpdate v)).flatMap (·.1)) ++
      textOf ((g.comment.toList.map fun v =>
        ([word [' '] "COMMENT", string [' '] v], Attribute.comment v)).flatMap (·.1)) =
        (String.join (g.options.map fun o => " " ++ o.render .mysql)).toList := by
    unfold Field.options
    cases g.autoIncrement <;> cases g.onUpdate <;> cases g.comment <;>
      simp [Script.ColumnOption.render, word, string]
  simp only [Field.attributeLexemes, Field.attributeParts, List.flatMap_append, textOf_append,
    hunsigned, hzerofill, hnullable, hdefault, String.toList_append, ← hoptions, List.append_assoc]

theorem mysqlType_eq (h : g.PlainType) : Dialect.mysqlType true g =
    Dialect.mysqlBaseType true g ++ (if g.unsigned then " UNSIGNED" else "")
      ++ (if g.zerofill then " ZEROFILL" else "") := by
  have hunsigned : (g.type.acceptsSign && g.unsigned) = g.unsigned := by
    cases hu : g.unsigned with
    | false => simp
    | true => simp [h.sign (.inl hu)]
  have hzerofill : (g.type.acceptsSign && g.zerofill) = g.zerofill := by
    cases hz : g.zerofill with
    | false => simp
    | true => simp [h.sign (.inr hz)]
  rw [Dialect.mysqlType, hunsigned, hzerofill]

theorem mysqlType_written (o : Options) (f : Field) :
    Dialect.mysqlType o.nativeJson (Creation.effectiveField o f) =
      Dialect.mysqlType true (f.written o) := by
  by_cases hj : (f.type == .json && !o.nativeJson) = true
  · -- a server without JSON stores text, which comes back as a type of its own
    rw [Bool.and_eq_true, beq_iff_eq, Bool.not_eq_true'] at hj
    simp [Dialect.mysqlType, Dialect.mysqlBaseType, Field.written, Creation.effectiveField, hj,
      ColumnType.acceptsSign, ColumnType.isInteger, ColumnType.isDecimal, ColumnType.isFloating,
      Dialect.withParameters, Dialect.withSizes, ColumnType.name]
  · have hbase : Dialect.mysqlBaseType o.nativeJson (Creation.effectiveField o f) =
        Dialect.mysqlBaseType true (Creation.effectiveField o f) := by
      unfold Dialect.mysqlBaseType
      split <;> try rfl
      rename_i ht
      have htype : f.type = .json := ht
      simp [htype] at hj
      simp [hj]
    have hwritten : f.written o = { Creation.effectiveField o f with
        autoIncrement := f.autoIncrement && o.includeAutoIncrement
        comment := if o.includeComments then f.comment else none } := by
      simp [Field.written, Creation.effectiveField, hj]
    rw [Dialect.mysqlType, hbase, hwritten]
    rfl

namespace Field

def columnLexemes (gap : List Char) (g : Field) : List Lexeme :=
  Lexeme.name .mysql gap g.name :: (g.typeLexemes ++ g.attributeLexemes)

end Field

theorem textOf_columnLexemes {o : Options} (ho : o.dialect = .mysql) (t : Table) {f : Field}
    (h : f.Plain) (gap : List Char) : textOf ((f.written o).columnLexemes gap) =
      gap ++ ((Creation.columnDefinition o t f).render .mysql).toList := by
  have hg := h.written o
  have hoptions : Creation.columnOptions o t (Creation.effectiveField o f) =
      (f.written o).options := by
    have hauto : (f.autoIncrement && f.inPrimaryKey && o.includeAutoIncrement) =
        (f.autoIncrement && o.includeAutoIncrement) := by
      cases ha : f.autoIncrement with
      | false => rfl
      | true => simp [h.autoIncrement ha]
    simp only [Creation.columnOptions, ho, Field.options, Field.written, Creation.effectiveField,
      hauto]
    cases o.includeComments <;> rfl
  have hdefault : f.default.map (Dialect.mysql.defaultText f.type) =
      (f.written o).default.map (Dialect.mysql.defaultText (f.written o).type) := by
    have hsame (v : String) : Dialect.mysql.defaultText f.type v =
        Dialect.mysql.defaultText (f.written o).type v := by
      by_cases hj : (f.type == .json && !o.nativeJson) = true
      · have htype : f.type = .json := by
          rw [Bool.and_eq_true, beq_iff_eq] at hj
          exact hj.1
        simp only [Field.written, hj, if_true]
        rw [htype, defaultText_json]
      · simp [Field.written, hj]
    rw [funext hsame]
    rfl
  have htype : Dialect.mysql.physicalType o.nativeJson (Creation.effectiveField o f) =
      Dialect.mysqlType true (f.written o) := mysqlType_written o f
  rw [Field.columnLexemes, textOf_cons, textOf_append, textOf_typeLexemes hg.toPlainType,
    textOf_attributeLexemes hg, ← hdefault, ← hoptions]
  simp only [Script.ColumnDefinition.render, Creation.columnDefinition, ho, htype,
    mysqlType_eq hg.toPlainType]
  simp [name]
  rfl

theorem sealed_typeLexemes (h : g.PlainType) : Sealed g.typeLexemes := by
  have hparameters : Tight (separated g.parameterLexemes) := by
    apply tight_separated
    intro w hw
    rcases List.mem_append.1 hw with hw | hw
    · obtain ⟨n, _, rfl⟩ := List.mem_map.1 hw
      exact tight_number (isNumeral_toString n.toNat) gap_nil
    · obtain ⟨v, hv, rfl⟩ := List.mem_map.1 hw
      exact tight_member (h.backslash v hv) gap_nil
  have hgroup : Sealed g.parameterGroup := by
    unfold Field.parameterGroup
    split_ifs
    · exact sealed_group hparameters gap_nil
    · exact .nil
  exact (sealed_word (isBareWord_name h.named) gap_space (by simp)).append hgroup

theorem sealed_columnLexemes (h : g.Plain) {gap : List Char} (hg : Scan.Gap gap) (hn : gap ≠ []) :
    Sealed (g.columnLexemes gap) := by
  have hattributes : Sealed g.attributeLexemes :=
    .flatMap fun b hb => (spells_attributeParts h b hb).sealed
  have hname : Sealed [name .mysql gap g.name] := (tight_name (Dialect.quotes_mysql _) hg).sealed hn
  exact hname.append ((sealed_typeLexemes h.toPlainType).append hattributes)

theorem enclosed_parameterGroup (g : Field) (p : Text.Position) :
    Enclosed (tokensAt p g.parameterGroup) := by
  unfold Field.parameterGroup
  split_ifs
  · exact enclosed_tokensAt_group (nesting?_tokensAt (isInner_of_mem_separated fun w =>
      @isPart_of_mem_parameterLexemes g w)) p []
  · exact .nil

theorem enclosed_columnLexemes (h : g.Plain) (gap : List Char) (p : Text.Position) :
    Enclosed (tokensAt p (g.columnLexemes gap)) := by
  have hattributes : ∀ w ∈ g.attributeLexemes, w.kind.isPart = true := by
    intro w hw
    obtain ⟨b, hb, hw⟩ := List.mem_flatMap.1 hw
    exact (spells_attributeParts h b hb).parts w hw
  have hs : g.columnLexemes gap =
      [name .mysql gap g.name, word [' '] g.type.name] ++
        (g.parameterGroup ++ g.attributeLexemes) := rfl
  rw [hs, tokensAt_append, tokensAt_append]
  refine (enclosed_of_isPart ?_ _).append
    ((enclosed_parameterGroup g _).append (enclosed_of_isPart hattributes _))
  rw [List.forall_mem_cons, List.forall_mem_singleton]
  exact ⟨rfl, rfl⟩

theorem read?_columnLexemes (h : g.Plain) (gap : List Char) (p : Text.Position) :
    Column.read? (tokensAt p (g.columnLexemes gap)) = some (g.column, true) := by
  have hspells := spells_attributeParts h
  have hopens : OpensAttribute g.attributeLexemes :=
    .flatMap fun b hb => (hspells b hb).opensAttribute
  obtain ⟨q, htype⟩ := read?_typeLexemes h.toPlainType hopens
    (p.advance (name .mysql gap g.name).chars)
  have hname : Declaration.name? (tokensAt p (g.columnLexemes gap)) =
      some (g.name, tokensAt (p.advance (name .mysql gap g.name).chars)
        (g.typeLexemes ++ g.attributeLexemes)) := rfl
  have hattributes : Attribute.readAll (tokensAt q g.attributeLexemes) =
      (g.attributeParts.map (·.2), true) := readAll_tokensAt hspells q
  rw [Column.read?, hname]
  simp [htype, hattributes, Field.column]

theorem keys_column (g : Field) (table : String) :
    g.column.foreignKeys table = [] ∧ g.column.checks = [] := by
  have hnone : ∀ a ∈ g.column.attributes, a.reference? = none ∧ a.check? = none := by
    intro a ha
    obtain ⟨b, hb, rfl⟩ := List.mem_map.1 ha
    simp only [Field.attributeParts, List.mem_append, List.mem_map, Option.mem_toList,
      List.mem_ite_nil_right, List.mem_ite_nil_left, List.mem_singleton] at hb
    rcases hb with (((((⟨_, rfl⟩ | ⟨_, rfl⟩) | ⟨_, rfl⟩) | ⟨v, _, rfl⟩) | ⟨_, rfl⟩) | ⟨v, _, rfl⟩) |
      ⟨v, _, rfl⟩ <;> exact ⟨rfl, rfl⟩
  have hreferences : g.column.attributes.filterMap Attribute.reference? = [] :=
    List.filterMap_eq_nil_iff.2 fun a ha => (hnone a ha).1
  have hchecks : g.column.attributes.filterMap Attribute.check? = [] :=
    List.filterMap_eq_nil_iff.2 fun a ha => (hnone a ha).2
  rw [Column.foreignKeys, Column.checks, hreferences, hchecks]
  exact ⟨rfl, rfl⟩

end SqlTables
