import SqlTables.Proofs.RoundTrip.Column
import SqlTables.Proofs.RoundTrip.Expression

/-! The lines of a column list as they are written in MySQL, each a clause when it is read back. -/

namespace SqlTables

open Declaration Lexeme
open Text (Position)

variable {rest ws : List Lexeme} {c : Clause}

def lineGap : List Char := ['\n', '\t']

theorem gap_line : Scan.Gap lineGap := by decide

/-- Whether lexemes are a line of their own, read as the clause. -/
structure Declares (ws : List Lexeme) (c : Clause) : Prop where
  sealed : Sealed ws
  enclosed : ∀ p, Enclosed (tokensAt p ws)
  read : ∀ p, Clause.read (tokensAt p ws) = .clause c

theorem declares_column {g : Field} (h : g.Plain) :
    Declares (g.columnLexemes lineGap) (.column g.column) := by
  refine ⟨sealed_columnLexemes h gap_line (by decide), enclosed_columnLexemes h lineGap, ?_⟩
  intro p
  have hread : Clause.read (tokensAt p (g.columnLexemes lineGap)) =
      .ofColumn (Column.read? (tokensAt p (g.columnLexemes lineGap))) := rfl
  rw [hread, read?_columnLexemes h]
  rfl

def lineWords : List String → List Lexeme
  | [] => []
  | s :: ss => word lineGap s :: words ss

theorem sealed_lineWords {ss : List String} (h : ∀ s ∈ ss, isBareWord s = true) :
    Sealed (lineWords ss) := by
  cases ss with
  | nil => exact .nil
  | cons s ss =>
    rw [List.forall_mem_cons] at h
    exact (sealed_word h.1 gap_line (by decide)).append (sealed_words h.2)

theorem isPart_of_mem_lineWords {ss : List String} {w : Lexeme} (h : w ∈ lineWords ss) :
    w.kind.isPart = true := by
  cases ss with
  | nil => simp [lineWords] at h
  | cons s ss =>
    rcases List.mem_cons.1 h with rfl | h
    · rfl
    · exact isPart_of_mem_words h

def primaryKeyLexemes (d : Dialect) (columns : List String) : List Lexeme :=
  lineWords ["PRIMARY", "KEY"] ++ names d columns

theorem declares_primaryKey {d : Dialect} {columns : List String} (h : columns ≠ [])
    (hd : ∀ column ∈ columns, d.Quotes column) :
    Declares (primaryKeyLexemes d columns) (.primaryKey columns) := by
  refine ⟨(sealed_lineWords (by decide)).append (sealed_names hd), fun p => ?_, fun p => ?_⟩
  · rw [primaryKeyLexemes, tokensAt_append]
    exact (enclosed_of_isPart (fun w => isPart_of_mem_lineWords) _).append
      (enclosed_names d columns _)
  · have hread (q : Position) : Clause.read (tokensAt p (lineWords ["PRIMARY", "KEY"]) ++
        tokensAt q (names d columns)) = .ofOption ((Clause.columns?
          (tokensAt q (names d columns))).map fun columns => .primaryKey columns.1) := rfl
    rw [primaryKeyLexemes, tokensAt_append, hread]
    obtain ⟨q, hcolumns⟩ := columns?_names h (p.advance (textOf (lineWords ["PRIMARY", "KEY"]))) []
    rw [List.append_nil] at hcolumns
    rw [hcolumns]
    rfl

def kindWords : IndexKind → List String
  | .normal => ["KEY"]
  | .unique => ["UNIQUE", "KEY"]
  | .fulltext => ["FULLTEXT", "KEY"]
  | .spatial => ["SPATIAL", "KEY"]

def keyLexemes (i : Index) : List Lexeme :=
  lineWords (kindWords i.kind) ++ name .mysql [' '] i.name :: names .mysql i.fields

theorem declares_key {i : Index} (h : i.fields ≠ []) :
    Declares (keyLexemes i) (.index i.kind (some i.name) i.fields) := by
  have hwords : ∀ s ∈ kindWords i.kind, isBareWord s = true := by
    cases i.kind <;> decide
  have hs : keyLexemes i =
      lineWords (kindWords i.kind) ++ ([name .mysql [' '] i.name] ++ names .mysql i.fields) :=
    rfl
  refine ⟨?_, fun p => ?_, fun p => ?_⟩
  · rw [hs]
    exact (sealed_lineWords hwords).append ((sealed_name (Dialect.quotes_mysql _)).append
      (sealed_names fun a _ => Dialect.quotes_mysql a))
  · rw [hs, tokensAt_append, tokensAt_append]
    exact (enclosed_of_isPart (fun w => isPart_of_mem_lineWords) _).append
      ((enclosed_of_isPart (by simp [name, TokenKind.isPart, TokenKind.isInner]) _).append
        (enclosed_names .mysql i.fields _))
  · have hindex (q : Position) : Clause.index? i.kind none (tokensAt q
        (name .mysql [' '] i.name :: names .mysql i.fields)) =
          some (.index i.kind (some i.name) i.fields) := by
      obtain ⟨q', hcolumns⟩ := columns?_names h (q.advance (name .mysql [' '] i.name).chars) []
      rw [List.append_nil] at hcolumns
      have hread : Clause.index? i.kind none (tokensAt q
          (name .mysql [' '] i.name :: names .mysql i.fields)) =
          (Clause.columns? (tokensAt (q.advance (name .mysql [' '] i.name).chars)
            (names .mysql i.fields))).bind
              fun columns => some (.index i.kind (some i.name) columns.1) := rfl
      rw [hread, hcolumns]
      rfl
    have hread (q : Position) : Clause.read (tokensAt p (lineWords (kindWords i.kind)) ++
        tokensAt q (name .mysql [' '] i.name :: names .mysql i.fields)) =
        .ofOption (Clause.index? i.kind none
          (tokensAt q (name .mysql [' '] i.name :: names .mysql i.fields))) := by
      cases i.kind <;> rfl
    rw [keyLexemes, tokensAt_append, hread, hindex]
    rfl

def actionWords : String → List String
  | "SET NULL" => ["SET", "NULL"]
  | "SET DEFAULT" => ["SET", "DEFAULT"]
  | "NO ACTION" => ["NO", "ACTION"]
  | action => [action]

structure Refers (ws : List Lexeme) (o : ReferenceOption) : Prop where
  sealed : Sealed ws
  parts : ∀ w ∈ ws, w.kind.isPart = true
  opening : ∃ ws', ws = word [' '] "ON" :: ws'
  begins : ∀ p rest, beginsReferenceOption (tokensAt p (ws ++ rest)) = true
  read : ∀ p rest, ∃ q, referenceOption? (tokensAt p (ws ++ rest)) = some (o, tokensAt q rest)

theorem refers_action {a event : String} {make : String → ReferenceOption}
    (he : event = "DELETE" ∧ make = .onDelete ∨ event = "UPDATE" ∧ make = .onUpdate)
    (h : a ∈ referenceActions) : Refers (words ("ON" :: event :: actionWords a)) (make a) := by
  simp only [referenceActions, List.mem_cons, List.not_mem_nil, or_false] at h
  -- the words of an action are read one by one, so every action is a case of its own
  rcases he with ⟨rfl, rfl⟩ | ⟨rfl, rfl⟩ <;> rcases h with rfl | rfl | rfl | rfl | rfl <;>
    exact ⟨sealed_words (by decide), fun w => isPart_of_mem_words, ⟨_, rfl⟩, fun _ _ => rfl,
      fun _ _ => ⟨_, rfl⟩⟩

theorem referenceOptions?_tokensAt {parts : List (List Lexeme × ReferenceOption)}
    (h : ∀ b ∈ parts, Refers b.1 b.2) (p : Position) :
    referenceOptions? (tokensAt p (parts.flatMap (·.1))) = some (parts.map (·.2), []) := by
  induction parts generalizing p with
  | nil =>
    rw [List.flatMap_nil, referenceOptions?]
    rfl
  | cons b parts ih =>
    rw [List.forall_mem_cons] at h
    obtain ⟨q, hread⟩ := h.1.read p (parts.flatMap (·.1))
    rw [List.flatMap_cons, referenceOptions?, if_pos (h.1.begins p _)]
    split
    · rename_i hnone
      rw [hread] at hnone
      simp at hnone
    · rename_i o rest hsome
      rw [hread, Option.some.injEq, Prod.mk.injEq] at hsome
      obtain ⟨rfl, rfl⟩ := hsome
      rw [ih h.2]
      rfl

def optionParts (k : ForeignKey) : List (List Lexeme × ReferenceOption) :=
  k.onDelete.toList.map (fun a => (words ("ON" :: "DELETE" :: actionWords a), .onDelete a)) ++
    k.onUpdate.toList.map fun a => (words ("ON" :: "UPDATE" :: actionWords a), .onUpdate a)

def optionLexemes (k : ForeignKey) : List Lexeme := (optionParts k).flatMap (·.1)

def referencedLexemes (k : ForeignKey) : List Lexeme :=
  if k.referencedFields.isEmpty then [] else names .mysql k.referencedFields

def referenceLexemes (k : ForeignKey) : List Lexeme :=
  word [' '] "REFERENCES" :: name .mysql [' '] k.referencedTable ::
    (referencedLexemes k ++ optionLexemes k)

def foreignKeyLexemes (k : ForeignKey) : List Lexeme :=
  word lineGap "CONSTRAINT" :: name .mysql [' '] k.name ::
    (words ["FOREIGN", "KEY"] ++ (names .mysql k.fields ++ referenceLexemes k))

def reference (k : ForeignKey) : Reference :=
  ⟨k.referencedTable, k.referencedFields, k.onDelete, k.onUpdate⟩

variable {k : ForeignKey}

theorem refers_optionParts (h : k.Plain) : ∀ b ∈ optionParts k, Refers b.1 b.2 := by
  intro b hb
  simp only [optionParts, List.mem_append, List.mem_map, Option.mem_toList] at hb
  rcases hb with ⟨a, ha, rfl⟩ | ⟨a, ha, rfl⟩
  · exact refers_action (.inl ⟨rfl, rfl⟩) (h.onDelete a ha)
  · exact refers_action (.inr ⟨rfl, rfl⟩) (h.onUpdate a ha)

theorem optionLexemes_cases (h : k.Plain) :
    optionLexemes k = [] ∨ ∃ ws, optionLexemes k = word [' '] "ON" :: ws := by
  have hparts := refers_optionParts h
  unfold optionLexemes
  cases hb : optionParts k with
  | nil => exact .inl rfl
  | cons b parts =>
    rw [hb, List.forall_mem_cons] at hparts
    obtain ⟨ws, hws⟩ := hparts.1.opening
    rw [List.flatMap_cons, hws]
    exact .inr ⟨_, rfl⟩

theorem referencedFields?_tokensAt (h : k.Plain) (p : Position) :
    ∃ q, referencedFields? (tokensAt p (referencedLexemes k ++ optionLexemes k)) =
      some (k.referencedFields, tokensAt q (optionLexemes k)) := by
  unfold referencedLexemes
  split_ifs with he
  · rw [List.isEmpty_iff] at he
    have hnone : group? (tokensAt p (optionLexemes k)) = none := by
      rcases optionLexemes_cases h with ho | ⟨ws, ho⟩ <;> rw [ho] <;> rfl
    refine ⟨p, ?_⟩
    rw [List.nil_append, referencedFields?, hnone, he]
  · have hne : k.referencedFields ≠ [] := fun hs => he (by simp [hs])
    obtain ⟨g, q, q', hgroup, hinside⟩ := group?_names .mysql k.referencedFields p (optionLexemes k)
    refine ⟨q, ?_⟩
    rw [referencedFields?, hgroup]
    simp only [hinside, columnNames?_nameParts hne, Option.map_some]

theorem qualifiedName?_name (s : String) (hd : ∀ w ∈ rest.head?, w.kind ≠ .dot) (p : Position) :
    qualifiedName? (tokensAt p (name .mysql [' '] s :: rest)) =
      some (s, tokensAt (p.advance (name .mysql [' '] s).chars) rest) := by
  cases rest with
  | nil => rfl
  | cons w rest =>
    have hw : ¬w.kind = .dot := hd w (by simp)
    rw [tokensAt_cons, tokensAt_cons, qualifiedName?]
    simp [name, token, Token.name?, hw]

theorem ne_dot_referenced (h : k.Plain) :
    ∀ w ∈ (referencedLexemes k ++ optionLexemes k).head?, w.kind ≠ .dot := by
  intro w hw
  unfold referencedLexemes at hw
  split_ifs at hw
  · rw [List.nil_append] at hw
    rcases optionLexemes_cases h with ho | ⟨ws, ho⟩ <;> rw [ho] at hw
    · simp at hw
    · obtain rfl : word [' '] "ON" = w := by simpa using hw
      simp [word]
  · obtain rfl : mark [' '] '(' = w := by simpa [names, group] using hw
    simp [mark, Scan.punctuation]

theorem reference?_tokensAt (h : k.Plain) (p : Position) :
    reference? (tokensAt p (referenceLexemes k)) = some (reference k, []) := by
  have hkeyword : keyword? "REFERENCES" (tokensAt p (referenceLexemes k)) =
      some (tokensAt (p.advance (word [' '] "REFERENCES").chars)
        (name .mysql [' '] k.referencedTable :: (referencedLexemes k ++ optionLexemes k))) := rfl
  have hname := qualifiedName?_name k.referencedTable (ne_dot_referenced h)
    (p.advance (word [' '] "REFERENCES").chars)
  obtain ⟨q, hfields⟩ := referencedFields?_tokensAt h
    ((p.advance (word [' '] "REFERENCES").chars).advance
      (name .mysql [' '] k.referencedTable).chars)
  have hoptions := referenceOptions?_tokensAt (refers_optionParts h) q
  have hfold : ((optionParts k).map (·.2)).foldl ReferenceOption.apply
      ⟨k.referencedTable, k.referencedFields, none, none⟩ = reference k := by
    unfold optionParts reference
    cases k.onDelete <;> cases k.onUpdate <;> rfl
  rw [← optionLexemes] at hoptions
  rw [reference?, hkeyword]
  simp [hname, hfields, hoptions, hfold, -tokensAt_cons]

theorem declares_foreignKey (h : k.Plain) :
    Declares (foreignKeyLexemes k) (.foreignKey (some k.name) k.fields (reference k)) := by
  have hs : foreignKeyLexemes k = [word lineGap "CONSTRAINT"] ++ ([name .mysql [' '] k.name] ++
      (words ["FOREIGN", "KEY"] ++ (names .mysql k.fields ++ (words ["REFERENCES"] ++
        ([name .mysql [' '] k.referencedTable] ++
          (referencedLexemes k ++ optionLexemes k)))))) := rfl
  have hoptions : Sealed (optionLexemes k) :=
    .flatMap fun b hb => (refers_optionParts h b hb).sealed
  have hreferenced : Sealed (referencedLexemes k) := by
    unfold referencedLexemes
    split_ifs
    · exact .nil
    · exact sealed_names fun a _ => Dialect.quotes_mysql a
  refine ⟨?_, fun p => ?_, fun p => ?_⟩
  · rw [hs]
    have hname (s : String) := sealed_name (Dialect.quotes_mysql s)
    have hnames (as : List String) : Sealed (names .mysql as) :=
      sealed_names fun a _ => Dialect.quotes_mysql a
    exact (sealed_word (by decide) gap_line (by decide)).append ((hname _).append
      ((sealed_words (by decide)).append ((hnames _).append ((sealed_words (by decide)).append
        ((hname _).append (hreferenced.append hoptions))))))
  · have hname (s : String) (q : Position) : Enclosed (tokensAt q [name .mysql [' '] s]) :=
      enclosed_of_isPart (by simp [name, TokenKind.isPart, TokenKind.isInner]) q
    have hwords (ss : List String) (q : Position) : Enclosed (tokensAt q (words ss)) :=
      enclosed_of_isPart (fun w => isPart_of_mem_words) q
    have hoptions (q : Position) : Enclosed (tokensAt q (optionLexemes k)) := by
      refine enclosed_of_isPart (fun w hw => ?_) q
      obtain ⟨b, hb, hw⟩ := List.mem_flatMap.1 hw
      exact (refers_optionParts h b hb).parts w hw
    have hreferenced (q : Position) : Enclosed (tokensAt q (referencedLexemes k)) := by
      unfold referencedLexemes
      split_ifs
      · exact .nil
      · exact enclosed_names _ _ q
    have hopening : Enclosed (tokensAt p [word lineGap "CONSTRAINT"]) :=
      enclosed_of_isPart (by simp [word, TokenKind.isPart, TokenKind.isInner]) p
    simp only [hs, tokensAt_append]
    exact hopening.append ((hname _ _).append ((hwords _ _).append ((enclosed_names _ _ _).append
      ((hwords _ _).append ((hname _ _).append ((hreferenced _).append (hoptions _)))))))
  · have hsplit : foreignKeyLexemes k = (word lineGap "CONSTRAINT" :: name .mysql [' '] k.name ::
        words ["FOREIGN", "KEY"]) ++ (names .mysql k.fields ++ referenceLexemes k) := rfl
    have hread (q : Position) : Clause.read (tokensAt p
        (word lineGap "CONSTRAINT" :: name .mysql [' '] k.name :: words ["FOREIGN", "KEY"]) ++
          tokensAt q (names .mysql k.fields ++ referenceLexemes k)) =
        .ofOption ((Clause.columns? (tokensAt q (names .mysql k.fields ++ referenceLexemes k))).bind
          fun columns => (reference? columns.2).bind fun target =>
            some (.foreignKey (some k.name) columns.1 target.1)) := rfl
    obtain ⟨q, hcolumns⟩ := columns?_names h.fields (p.advance (textOf
      (word lineGap "CONSTRAINT" :: name .mysql [' '] k.name :: words ["FOREIGN", "KEY"])))
      (referenceLexemes k)
    rw [hsplit, tokensAt_append, hread, hcolumns]
    simp [reference?_tokensAt h, Clause.Reading.ofOption]

def constraintOpening (d : Dialect) (keyword : String) : Option String → List Lexeme
  | some n => [word lineGap "CONSTRAINT", name d [' '] n, word [' '] keyword]
  | none => [word lineGap keyword]

def checkLexemes (c : Check) : List Lexeme :=
  constraintOpening .mysql "CHECK" c.name ++ group [' '] (ofExpression c.expression)

theorem sealed_constraintOpening {d : Dialect} {keyword : String} {n : Option String}
    (hk : isBareWord keyword = true) (h : ∀ a ∈ n, d.Quotes a) :
    Sealed (constraintOpening d keyword n) := by
  cases n with
  | none => exact sealed_word hk gap_line (by decide)
  | some n =>
    have hopening : Sealed [word lineGap "CONSTRAINT"] :=
      sealed_word (by decide) gap_line (by decide)
    have hkeyword : Sealed [word [' '] keyword] := sealed_word hk gap_space (by decide)
    exact hopening.append ((sealed_name (h n rfl)).append hkeyword)

theorem isPart_of_mem_constraintOpening {d : Dialect} {keyword : String} {n : Option String}
    {w : Lexeme} (h : w ∈ constraintOpening d keyword n) : w.kind.isPart = true := by
  revert w
  cases n <;> simp [constraintOpening, word, name, TokenKind.isPart, TokenKind.isInner]

theorem declares_check {c : Check} (h : c.Plain) :
    Declares (checkLexemes c) (.check c.name c.expression) := by
  obtain ⟨_, hwritten, htokens⟩ := ofExpression_spec h
  have hnesting (q : Position) := (htokens q).1
  have hopening : Sealed (constraintOpening .mysql "CHECK" c.name) :=
    sealed_constraintOpening (by decide) fun a _ => Dialect.quotes_mysql a
  refine ⟨hopening.append (sealed_group_of_written hwritten gap_space), fun p => ?_, fun p => ?_⟩
  · rw [checkLexemes, tokensAt_append]
    exact (enclosed_of_isPart (fun w => isPart_of_mem_constraintOpening) p).append
      (enclosed_tokensAt_group hnesting _ _)
  · have hread (q : Position) : Clause.read (tokensAt p
        (constraintOpening .mysql "CHECK" c.name) ++
        tokensAt q (group [' '] (ofExpression c.expression))) = .ofOption ((group? (tokensAt q
          (group [' '] (ofExpression c.expression)))).map fun found =>
            .check c.name (Token.sourceText found.1.inside)) := by
      cases c.name <;> rfl
    obtain ⟨g, q, q', hgroup, hinside⟩ := group?_tokensAt hnesting
      (p.advance (textOf (constraintOpening .mysql "CHECK" c.name))) [' '] []
    rw [List.append_nil] at hgroup
    rw [checkLexemes, tokensAt_append, hread, hgroup]
    simp [hinside, (htokens q').2, Clause.Reading.ofOption]

theorem textOf_primaryKeyLexemes (d : Dialect) (columns : List String) :
    textOf (primaryKeyLexemes d columns) =
      lineGap ++ ((Script.Constraint.primaryKey columns).render d).toList := by
  simp [primaryKeyLexemes, lineWords, textOf_words, textOf_names, word, Script.Constraint.render]

theorem textOf_keyLexemes (i : Index) : textOf (keyLexemes i) =
    lineGap ++ ((Script.Constraint.key i.kind i.name i.fields).render .mysql).toList := by
  cases hk : i.kind <;> simp [keyLexemes, kindWords, hk, lineWords, textOf_words, textOf_names,
    word, name, Script.Constraint.render, Script.keyWords]

theorem textOf_actionWords {a : String} (h : a ∈ referenceActions) :
    textOf (words (actionWords a)) = ' ' :: a.toList := by
  simp only [referenceActions, List.mem_cons, List.not_mem_nil, or_false] at h
  rcases h with rfl | rfl | rfl | rfl | rfl <;> rfl

theorem textOf_optionLexemes (h : k.Plain) : textOf (optionLexemes k) =
    (Script.given (" ON DELETE " ++ ·) k.onDelete ++
      Script.given (" ON UPDATE " ++ ·) k.onUpdate).toList := by
  have hcons (s : String) (ss : List String) :
      textOf (words (s :: ss)) = ' ' :: s.toList ++ textOf (words ss) := rfl
  have hdelete : textOf ((k.onDelete.toList.map fun a =>
      (words ("ON" :: "DELETE" :: actionWords a), ReferenceOption.onDelete a)).flatMap (·.1)) =
        (Script.given (" ON DELETE " ++ ·) k.onDelete).toList := by
    cases hd : k.onDelete with
    | none => rfl
    | some a => simp [hcons, textOf_actionWords (h.onDelete a hd), Script.given]
  have hupdate : textOf ((k.onUpdate.toList.map fun a =>
      (words ("ON" :: "UPDATE" :: actionWords a), ReferenceOption.onUpdate a)).flatMap (·.1)) =
        (Script.given (" ON UPDATE " ++ ·) k.onUpdate).toList := by
    cases hu : k.onUpdate with
    | none => rfl
    | some a => simp [hcons, textOf_actionWords (h.onUpdate a hu), Script.given]
  rw [optionLexemes, optionParts, List.flatMap_append, textOf_append, hdelete, hupdate,
    String.toList_append]

theorem textOf_foreignKeyLexemes (h : k.Plain) : textOf (foreignKeyLexemes k) =
    lineGap ++ ((Script.Constraint.foreignKey k).render .mysql).toList := by
  have hreferenced : textOf (referencedLexemes k) = (if k.referencedFields.isEmpty then ""
      else " " ++ Dialect.mysql.nameList k.referencedFields).toList := by
    unfold referencedLexemes
    split_ifs
    · rfl
    · simp [textOf_names]
  simp [foreignKeyLexemes, referenceLexemes, textOf_words, textOf_names, hreferenced,
    textOf_optionLexemes h, word, name, Script.Constraint.render, Script.constraintName,
    Script.given]

theorem textOf_checkLexemes {c : Check} (h : c.Plain) : textOf (checkLexemes c) =
    lineGap ++ ((Script.Constraint.check c).render .mysql).toList := by
  have htext := (ofExpression_spec h).1
  cases hn : c.name <;> simp [checkLexemes, constraintOpening, hn, textOf_group, htext, word, name,
    Script.Constraint.render, Script.constraintName, Script.given]

end SqlTables
