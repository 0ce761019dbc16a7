import SqlTables.Proofs.RoundTrip.Settling

/-! Tables that go through a script for MySQL and come back. -/

namespace SqlTables.Table

variable {o : Options} {t : Table}

/-- Whether two tables say the same of columns, keys, checks and comments. -/
structure Equivalent (t u : Table) : Prop where
  name : t.name = u.name
  fields : t.fields = u.fields
  indexes : t.indexes = u.indexes
  foreignKeys : t.foreignKeys = u.foreignKeys
  checks : t.checks = u.checks
  comment : t.comment = u.comment

theorem equivalent_written (h : t.Kept o) : (t.written o).Equivalent t := by
  refine ⟨rfl, fields_written h, rfl, rfl, rfl, ?_⟩
  simp [written, h.comments]

/-- A plain table comes back from its script with the settings that the script states, and if the
options leave out nothing it is otherwise the same. -/
theorem parse_single (ho : o.dialect = .mysql) (ht : t.Plain)
    (hs : ∀ v ∈ t.bareSettings o, isBareWord v = true ∨ isNumeral v = true) :
    ∃ sql, Creation.single o t = .ok sql ∧ parse sql = .ok (t.written o) ∧
      (t.Kept o → (t.written o).Equivalent t) := by
  refine ⟨Creation.tableScript o t, ?_, ?_, equivalent_written⟩
  · rw [Creation.single, ht.valid]
  · rw [parse_tableScript ht hs ho, ofClauses_tableLines ho ht, settle_drafted ht]
    rfl

def orders : Table where
  name := "orders ` -- \\"
  comment := some "it's; /* */"
  autoIncrementStart := some 100
  rowFormat := some "DYNAMIC"
  fields := [
    { name := "id", type := .bigInt, nullable := false, inPrimaryKey := true,
      autoIncrement := true, unsigned := true },
    { name := "KEY", type := .varChar, length := some 50, unique := true, default := some "it's",
      comment := some "\n'\\" },
    { name := "state", type := .enum, members := ["new", "it's"], default := some "NULL" },
    { name := "total", type := .decimal, precision := some 10, scale := some 2,
      default := some "-0.5e3" },
    { name := "changed", type := .timestamp, onUpdate := some "CURRENT_TIMESTAMP",
      default := some "CURRENT_TIMESTAMP" }]
  indexes := [⟨"uk_KEY", .unique, ["id"]⟩, ⟨"by state", .normal, ["state", "KEY"]⟩]
  foreignKeys := [⟨"fk", ["total"], "users", ["id"], some "SET NULL", some "CASCADE"⟩]
  checks := [⟨some "known state", "(state) <> ';'"⟩]

theorem plain_orders_fields : ∀ f ∈ orders.fields, f.Plain := by
  simp only [orders, List.forall_mem_cons, List.not_mem_nil, false_implies, implies_true,
    and_true]
  refine ⟨?_, ?_, ?_, ?_, ?_⟩
  all_goals
    refine ⟨⟨by decide, by decide, by decide, by decide, by decide, by decide, by decide,
      by decide⟩, ?_, ?_, by decide, by decide, by decide⟩
    all_goals
      intro v hv
      cases hv
    all_goals first | rfl | decide +kernel

theorem plain_orders_check : Check.Plain ⟨some "known state", "(state) <> ';'"⟩ := by
  have hts : Token.tokenize "(state) <> ';'" =
      .ok ([⟨"", .leftParen, "(", ⟨1, 1, 0⟩⟩, ⟨"", .word "state", "state", ⟨1, 2, 1⟩⟩,
        ⟨"", .rightParen, ")", ⟨1, 7, 6⟩⟩, ⟨" ", .symbol "<", "<", ⟨1, 9, 8⟩⟩,
        ⟨"", .symbol ">", ">", ⟨1, 10, 9⟩⟩, ⟨" ", .string ";", "';'", ⟨1, 12, 11⟩⟩] ++
        [⟨"", .eof, "", ⟨1, 15, 14⟩⟩]) := by
    decide +kernel
  exact ⟨by decide, by decide, _, _, hts, by decide, by decide, by decide⟩

theorem plain_orders : orders.Plain := by
  refine ⟨rfl, by decide, by decide, plain_orders_fields, by decide, ?_, ?_, ?_⟩
  · intro i hi column hc
    simp only [orders, List.mem_cons, List.not_mem_nil, or_false] at hi
    rcases hi with rfl | rfl
    · have hid : column = "id" := by
        simp only [Index.isUniqueOn, Bool.and_eq_true, beq_iff_eq] at hc
        simpa using hc.2.symm
      exact ⟨_, List.mem_cons_self, hid.symm, rfl⟩
    · simp [Index.isUniqueOn] at hc
  · intro k hk
    simp only [orders, List.mem_cons, List.not_mem_nil, or_false] at hk
    subst hk
    refine ⟨by decide, ?_, ?_⟩
    all_goals
      intro a ha
      cases ha
      decide
  · intro c hc
    simp only [orders, List.mem_cons, List.not_mem_nil, or_false] at hc
    rw [hc]
    exact plain_orders_check

theorem parse_single_orders : orders.Plain ∧ orders.Kept {} ∧
    ∃ sql, Creation.single {} orders = .ok sql ∧ parse sql = .ok (orders.written {}) ∧
      (orders.Kept {} → (orders.written {}).Equivalent orders) :=
  ⟨plain_orders, ⟨rfl, rfl, .inl (by decide +kernel)⟩, parse_single rfl plain_orders (by decide)⟩

end SqlTables.Table
