import SqlTables.Proofs.RoundTrip.Listing
import SqlTables.Proofs.Source.Whole

/-! The statements of a script for MySQL do not divide. Names, comments and strings are literals,
and what is written bare may hold no quote, no semicolon and no comment marker. -/

namespace SqlTables

open Source

variable {o : Options} {t : Table} {f : Field}

theorem trailing_optional {p : Prop} [Decidable p] {s : String} (h : Trailing s.toList) :
    Trailing (if p then s else "").toList := by
  split_ifs
  · exact h
  · exact trailing_nil

theorem trailing_given {α : Type} {write : α → String} {v : Option α}
    (h : ∀ a, v = some a → Trailing (write a).toList) :
    Trailing (Script.given write v).toList := by
  cases v with
  | none => exact trailing_nil
  | some a => exact h a rfl

theorem trailing_join {α : Type} {write : α → String} {xs : List α}
    (h : ∀ x ∈ xs, Whole (write x).toList) :
    Trailing (String.join (xs.map fun x => " " ++ write x)).toList := by
  have hblank : Inert " ".toList := by decide
  rw [String.toList_join, List.flatMap_map]
  refine trailing_flatMap fun x hx => ?_
  rw [String.toList_append]
  exact hblank.append (h x hx)

theorem trailing_parenthesised {s : String} (h : Whole s.toList) :
    Trailing ("(" ++ s ++ ")").toList := by
  have hopen : Inert "(".toList := by decide
  have hclose : Inert ")".toList := by decide
  simp only [String.toList_append, List.append_assoc]
  exact hopen.append (h.append hclose.trailing)

namespace Dialect

theorem trailing_nameList (names : List String) : Trailing (mysql.nameList names).toList := by
  apply trailing_parenthesised
  rw [String.toList_intercalate, List.map_map]
  refine whole_intercalate (by decide) fun x hx => ?_
  obtain ⟨name, _, rfl⟩ := List.mem_map.1 hx
  exact whole_quoteName name

theorem trailing_memberList {members : List String} (h : ∀ v ∈ members, '\\' ∉ v.toList) :
    Trailing (memberList members).toList := by
  apply trailing_parenthesised
  rw [String.toList_intercalate, List.map_map]
  refine whole_intercalate (by decide) fun x hx => ?_
  obtain ⟨v, hv, rfl⟩ := List.mem_map.1 hx
  exact whole_member (h v hv)

theorem whole_sized {name : String} (h : Whole name.toList) (n : UInt32) :
    Whole (sized name n).toList := by
  have hsize := trailing_parenthesised (inert_toString n.toNat).trailing.whole
  have htext : sized name n = name ++ ("(" ++ toString n.toNat ++ ")") := by
    simp only [sized, String.append_assoc]
  rw [htext, String.toList_append]
  exact h.append hsize

theorem whole_withSizes {name : String} (h : Whole name.toList) (n s : Option UInt32) :
    Whole (withSizes name n s).toList := by
  have hcomma : Inert ",".toList := by decide
  match n, s with
  | some n, some s =>
    have hsizes : Whole (toString n.toNat ++ ("," ++ toString s.toNat)).toList := by
      simp only [String.toList_append]
      exact (inert_toString n.toNat).trailing.whole.append
        (hcomma.append (inert_toString s.toNat).trailing.whole)
    have htext : withSizes name (some n) (some s) =
        name ++ ("(" ++ (toString n.toNat ++ ("," ++ toString s.toNat)) ++ ")") := by
      simp only [withSizes, String.append_assoc]
    rw [htext, String.toList_append]
    exact h.append (trailing_parenthesised hsizes)
  | some n, none => exact whole_sized h n
  | none, _ => exact h

theorem whole_typeName (h : ∀ name, f.type = .custom name → Bare name) :
    Whole f.type.name.toList := by
  cases ht : f.type with
  | custom name => exact whole_of_bare (h name ht)
  | _ => exact (show Inert _ by decide).trailing.whole

theorem whole_mysqlBaseType (native : Bool) (hn : ∀ name, f.type = .custom name → Bare name)
    (hm : ∀ v ∈ f.members, '\\' ∉ v.toList) : Whole (mysqlBaseType native f).toList := by
  have hname := whole_typeName hn
  have hvar : Inert "VARCHAR".toList := by decide
  have hjson : Inert "JSON".toList := by decide
  have htext : Inert "LONGTEXT".toList := by decide
  have henum : Inert "ENUM".toList := by decide
  have hset : Inert "SET".toList := by decide
  unfold mysqlBaseType
  split
  · exact whole_sized hvar.trailing.whole _
  · split_ifs
    · exact whole_withSizes hjson.trailing.whole _ _
    · exact htext.trailing.whole
  · rw [String.toList_append]
    exact (henum.append (trailing_memberList hm).whole).whole
  · rw [String.toList_append]
    exact (hset.append (trailing_memberList hm).whole).whole
  · exact whole_withSizes hname _ _

theorem whole_mysqlType (native : Bool) (hn : ∀ name, f.type = .custom name → Bare name)
    (hm : ∀ v ∈ f.members, '\\' ∉ v.toList) : Whole (mysqlType native f).toList := by
  have hunsigned : Inert " UNSIGNED".toList := by decide
  have hzerofill : Inert " ZEROFILL".toList := by decide
  rw [mysqlType, String.toList_append, String.toList_append]
  exact ((whole_mysqlBaseType native hn hm).append (trailing_optional hunsigned.trailing)).append
    (trailing_optional hzerofill.trailing)

end Dialect

namespace Script

theorem whole_columnOption {x : ColumnOption} (h : ∀ v, x = .onUpdate v → Whole v.toList) :
    Whole (x.render .mysql).toList := by
  cases x with
  | autoIncrement => exact (show Inert "AUTO_INCREMENT".toList by decide).trailing.whole
  | primaryKeyAutoIncrement =>
    exact (show Inert "PRIMARY KEY AUTOINCREMENT".toList by decide).trailing.whole
  | onUpdate v =>
    have hwords : Inert "ON UPDATE ".toList := by decide
    rw [ColumnOption.render, String.toList_append]
    exact (hwords.append (h v rfl)).whole
  | comment text =>
    have hword : Inert "COMMENT ".toList := by decide
    rw [ColumnOption.render, String.toList_append]
    exact (hword.append (whole_quoteString text)).whole

theorem whole_columnDefinition {c : ColumnDefinition} (ht : Whole c.type.toList)
    (hd : ∀ v, c.default = some v → Whole v.toList)
    (ho : ∀ v, .onUpdate v ∈ c.options → Whole v.toList) : Whole (c.render .mysql).toList := by
  have hblank : Inert " ".toList := by decide
  have hnull : Inert " NOT NULL".toList := by decide
  have hword : Inert " DEFAULT ".toList := by decide
  have hnullable : Trailing (if c.nullable then "" else " NOT NULL").toList := by
    split_ifs
    · exact trailing_nil
    · exact hnull.trailing
  have hdefault : Trailing (given (" DEFAULT " ++ ·) c.default).toList := by
    refine trailing_given fun v hv => ?_
    rw [String.toList_append]
    exact hword.append (hd v hv)
  have hoptions := trailing_join fun x hx =>
    whole_columnOption (x := x) fun v hv => ho v (hv ▸ hx)
  simp only [ColumnDefinition.render, String.toList_append, List.append_assoc]
  exact (whole_quoteName c.name).append
    (hblank.append (ht.append (hnullable.append (hdefault.append hoptions))))

theorem whole_constraintName_append {cs : List Char} (name : Option String) (h : Whole cs) :
    Whole ((constraintName .mysql name).toList ++ cs) := by
  have hword : Inert "CONSTRAINT ".toList := by decide
  have hblank : Inert " ".toList := by decide
  cases name with
  | none => exact h
  | some name =>
    simp only [constraintName, given, String.toList_append, List.append_assoc]
    exact (hword.append ((whole_quoteName name).append (hblank.append h))).whole

theorem inert_keyWords (kind : IndexKind) : Inert (keyWords kind).toList := by
  cases kind <;> decide

theorem trailing_action {w : String} (hw : Inert w.toList) {action : Option String}
    (h : ∀ a, action = some a → Whole a.toList) :
    Trailing (given (w ++ ·) action).toList := by
  refine trailing_given fun a ha => ?_
  rw [String.toList_append]
  exact hw.append (h a ha)

theorem whole_foreignKey {k : ForeignKey} (hd : ∀ a, k.onDelete = some a → Whole a.toList)
    (hu : ∀ a, k.onUpdate = some a → Whole a.toList) :
    Whole ((Constraint.foreignKey k).render .mysql).toList := by
  have hwords : Inert "FOREIGN KEY ".toList := by decide
  have hreferences : Inert " REFERENCES ".toList := by decide
  have hblank : Inert " ".toList := by decide
  have hcolumns : Trailing (if k.referencedFields.isEmpty then ""
      else " " ++ Dialect.mysql.nameList k.referencedFields).toList := by
    split_ifs
    · exact trailing_nil
    · rw [String.toList_append]
      exact hblank.append (Dialect.trailing_nameList k.referencedFields).whole
  have hdelete := trailing_action (w := " ON DELETE ") (by decide) hd
  have hupdate := trailing_action (w := " ON UPDATE ") (by decide) hu
  have htarget := (whole_quoteName k.referencedTable).append
    (hcolumns.append (hdelete.append hupdate))
  have hkey := hwords.append ((Dialect.trailing_nameList k.fields).append
    (hreferences.append htarget)).whole
  simp only [Constraint.render, String.toList_append, List.append_assoc]
  exact whole_constraintName_append (some k.name) hkey.whole

theorem whole_check {c : Check} (h : Whole c.expression.toList) :
    Whole ((Constraint.check c).render .mysql).toList := by
  have hopen : Inert "CHECK (".toList := by decide
  have hclose : Inert ")".toList := by decide
  simp only [Constraint.render, String.toList_append, List.append_assoc]
  exact whole_constraintName_append c.name (hopen.append (h.append hclose.trailing)).whole

theorem whole_key (kind : IndexKind) (name : String) (columns : List String) :
    Whole ((Constraint.key kind name columns).render .mysql).toList := by
  have hblank : Inert " ".toList := by decide
  have hcolumns := hblank.append (Dialect.trailing_nameList columns).whole
  simp only [Constraint.render, String.toList_append, List.append_assoc]
  exact ((inert_keyWords kind).append ((whole_quoteName name).append hcolumns)).whole

theorem whole_primaryKey (columns : List String) :
    Whole ((Constraint.primaryKey columns).render .mysql).toList := by
  have hwords : Inert "PRIMARY KEY ".toList := by decide
  rw [Constraint.render, String.toList_append]
  exact (hwords.append (Dialect.trailing_nameList columns).whole).whole

theorem whole_tableOption {x : TableOption} (h : ∀ v ∈ bareOption? x, Whole v.toList) :
    Whole (x.render .mysql).toList := by
  have hafter {s v : String} (hs : Inert s.toList) (hv : Whole v.toList) :
      Whole (s ++ v).toList := by
    rw [String.toList_append]
    exact (hs.append hv).whole
  cases x with
  | engine v => exact hafter (s := "ENGINE = ") (by decide) (h v rfl)
  | autoIncrement n =>
    exact hafter (s := "AUTO_INCREMENT = ") (by decide) (inert_toString n.toNat).trailing.whole
  | charset v => exact hafter (s := "DEFAULT CHARSET = ") (by decide) (h v rfl)
  | collate v => exact hafter (s := "COLLATE = ") (by decide) (h v rfl)
  | rowFormat v => exact hafter (s := "ROW_FORMAT = ") (by decide) (h v rfl)
  | tableSpace v => exact hafter (s := "TABLESPACE ") (by decide) (h v rfl)
  | comment text => exact hafter (s := "COMMENT = ") (by decide) (whole_quoteString text)

end Script

/-- Whether what a script has of a column without quotes, or with quotes and backslashes as they
are, leaves the script in one piece. -/
structure Field.Separable (f : Field) : Prop where
  type : ∀ name, f.type = .custom name → Bare name
  members : ∀ v ∈ f.members, '\\' ∉ v.toList
  default : ∀ v, f.default = some v →
    Dialect.mysql.defaultText f.type v ≠ Dialect.mysql.quoteString v →
      Bare (Dialect.mysql.defaultText f.type v)
  onUpdate : ∀ v, f.onUpdate = some v → Bare v

/-- Whether a table is valid, its name fits on a line, and nothing of it that is written without
quotes may end a statement, begin a comment or open a literal. -/
structure Table.Separable (o : Options) (t : Table) : Prop where
  valid : t.validate = .ok ()
  name : '\n' ∉ t.name.toList
  fields : ∀ f ∈ t.fields, f.Separable
  actions : ∀ k ∈ t.foreignKeys, ∀ a, k.onDelete = some a ∨ k.onUpdate = some a → Bare a
  checks : ∀ c ∈ t.checks, Bare c.expression
  settings : ∀ v ∈ t.bareSettings o, Bare v

namespace Creation

open Script

theorem whole_column (ho : o.dialect = .mysql) (t : Table) (h : f.Separable) :
    Whole ((columnDefinition o t f).render .mysql).toList := by
  have htype : (columnDefinition o t f).type =
      Dialect.mysqlType o.nativeJson (effectiveField o f) := by
    change o.dialect.physicalType o.nativeJson (effectiveField o f) = _
    rw [ho]
    rfl
  have hdefault : (columnDefinition o t f).default =
      f.default.map (Dialect.mysql.defaultText f.type) := by
    change f.default.map (o.dialect.defaultText f.type) = _
    rw [ho]
  apply whole_columnDefinition
  · rw [htype]
    exact Dialect.whole_mysqlType o.nativeJson h.type h.members
  · intro v hv
    rw [hdefault] at hv
    obtain ⟨d, hd, rfl⟩ := Option.map_eq_some_iff.1 hv
    by_cases hq : Dialect.mysql.defaultText f.type d = Dialect.mysql.quoteString d
    · rw [hq]
      exact whole_quoteString d
    · exact whole_of_bare (h.default d hd hq)
  · intro v hv
    have hupdate : f.onUpdate = some v := by
      simpa [columnDefinition, columnOptions, ho, effectiveField] using hv
    exact whole_of_bare (h.onUpdate v hupdate)

theorem whole_constraint (ho : o.dialect = .mysql) (h : t.Separable o) {c : Constraint}
    (hc : c ∈ constraints o t) : Whole (c.render .mysql).toList := by
  simp only [constraints, primaryKey, keyPlan, ho, inlinePlan, List.mem_append, List.mem_map,
    List.mem_ite_nil_left, List.mem_singleton] at hc
  rcases hc with ((⟨_, rfl⟩ | ⟨i, _, rfl⟩) | ⟨k, hk, rfl⟩) | ⟨c, hc, rfl⟩
  · exact whole_primaryKey _
  · exact whole_key i.kind i.name i.fields
  · exact whole_foreignKey (fun a ha => whole_of_bare (h.actions k hk a (.inl ha)))
      fun a ha => whole_of_bare (h.actions k hk a (.inr ha))
  · exact whole_check (whole_of_bare (h.checks c hc))

def body (c : CreateTable) : String :=
  (if c.ifNotExists then "IF NOT EXISTS " else "") ++ Dialect.mysql.quoteName c.table ++ " ("
    ++ ",".intercalate ((c.columns.map (·.render .mysql) ++
      c.constraints.map (·.render .mysql)).map ("\n\t" ++ ·))
    ++ "\n)" ++ String.join (c.options.map fun x => " " ++ x.render .mysql)

theorem toList_render_createTable (c : CreateTable) :
    (c.render .mysql).toList = "CREATE TABLE ".toList ++ (body c).toList ++ [';'] := by
  have hsemicolon : ";".toList = [';'] := rfl
  simp only [render_createTable, body, String.toList_append, List.append_assoc, hsemicolon]

theorem whole_body (ho : o.dialect = .mysql) (h : t.Separable o) :
    Whole (body (createTable o t)).toList := by
  have hopen : Inert " (".toList := by decide
  have hclose : Inert "\n)".toList := by decide
  have hindent : Inert "\n\t".toList := by decide
  have hlist : Whole (",".intercalate (((createTable o t).columns.map (·.render .mysql) ++
      (createTable o t).constraints.map (·.render .mysql)).map ("\n\t" ++ ·))).toList := by
    rw [String.toList_intercalate, List.map_map]
    refine whole_intercalate (by decide) fun x hx => ?_
    obtain ⟨line, hline, rfl⟩ := List.mem_map.1 hx
    have hwhole : Whole line.toList := by
      rcases List.mem_append.1 hline with hline | hline
      · obtain ⟨c, hc, rfl⟩ := List.mem_map.1 hline
        obtain ⟨f, hf, rfl⟩ := List.mem_map.1 hc
        exact whole_column ho t (h.fields f hf)
      · obtain ⟨c, hc, rfl⟩ := List.mem_map.1 hline
        exact whole_constraint ho h hc
    rw [Function.comp_apply, String.toList_append]
    exact (hindent.append hwhole).whole
  have hoptions := trailing_join fun x (hx : x ∈ (createTable o t).options) =>
    whole_tableOption fun v hv => whole_of_bare (h.settings v (mem_bareSettings hx hv))
  have hcolumns := hopen.append (hlist.append (hclose.append hoptions.whole))
  simp only [body, String.toList_append, List.append_assoc]
  split_ifs
  · have hexists : Inert "IF NOT EXISTS ".toList := by decide
    exact (hexists.append ((whole_quoteName _).append hcolumns)).whole
  · rw [String.toList_empty, List.nil_append]
    exact (whole_quoteName _).append hcolumns

theorem whole_createTable (ho : o.dialect = .mysql) (h : t.Separable o) :
    Whole ("CREATE TABLE ".toList ++ (body (createTable o t)).toList) :=
  ((show Inert "CREATE TABLE ".toList by decide).append (whole_body ho h)).whole

end Creation

end SqlTables
