import Marginalia.Proofs.Toml.Lines

/-! # Documents in TOML read back

The lines that are read build a document up: a header opens a table at its end, and a pair goes to
the end of the table that was opened last. So the rows of tables with different names, and with
different keys in each, give these tables back, wherever blank rows stand between them.
-/

namespace Marginalia.Toml

/-- The fields that are read for a table. -/
def Section.fields (table : Section) : List (String × Data) :=
  table.pairs.map fun (key, value) => (key, value.data)

/-- The value that is read for a table. -/
def Section.data (table : Section) : Data := .ofFields table.fields

/-- The names in a table: its own and its keys. -/
def Section.names (table : Section) : List String := table.name :: table.pairs.map Prod.fst

/-- Whether the names of tables need no quotes and no name comes twice in its place. -/
structure WellNamed (tables : List Section) : Prop where
  nodup : (tables.map Section.name).Nodup
  bare : ∀ table ∈ tables, ∀ name ∈ table.names, IsBareName name
  nodup_keys : ∀ table ∈ tables, (table.pairs.map Prod.fst).Nodup

/-! ## Entries -/

variable {entries inner : Entries} {key name : String} {node other : Node} {path : List String}

theorem Entries.lookup_concat (h : entries.lookup key = none) (node : Node) :
    (entries ++ [(key, node)]).lookup key = some node := by
  simp [List.lookup_append, h]

theorem Entries.put_append (h : entries.lookup key = none) (node : Node) (others : Entries) :
    Entries.put key node (entries ++ others) = entries ++ others.put key node := by
  induction entries with
  | nil => rfl
  | cons entry entries ih =>
      have hnone : ∀ kept ∈ entry :: entries, (key == kept.1) = false := by
        simpa using List.lookup_eq_none_iff.mp h
      obtain ⟨hfirst, hothers⟩ := List.forall_mem_cons.mp hnone
      have hne : entry.1 ≠ key := (beq_eq_false_iff_ne.mp hfirst).symm
      have hrest : entries.lookup key = none :=
        List.lookup_eq_none_iff.mpr (by simpa using hothers)
      simp [put, hne, ih hrest]

theorem Entries.put_of_lookup (h : entries.lookup key = none) :
    entries.put key node = entries ++ [(key, node)] := by
  simpa [put] using put_append h node []

theorem Entries.put_concat (h : entries.lookup key = none) :
    (entries ++ [(key, other)]).put key node = entries ++ [(key, node)] := by
  simpa [put] using put_append h node [(key, other)]

/-! ## One line -/

/-- A header opens a table at the end. -/
theorem add_header (h : entries.lookup name = none) :
    Draft.add ⟨entries, path⟩ (.header [name]) =
      some ⟨entries ++ [(name, .table .declared [])], [name]⟩ := by
  simp [Draft.add, Entries.within, Entries.declare, h, Entries.put_of_lookup h]

/-- A pair goes to the end of the table that was opened last. -/
theorem add_pair (hname : entries.lookup name = none) (hkey : inner.lookup key = none)
    (data : Data) :
    Draft.add ⟨entries ++ [(name, .table .declared inner)], [name]⟩ (.pair [key] data) =
      some ⟨entries ++ [(name, .table .declared (inner ++ [(key, .value data)]))], [name]⟩ := by
  simp [Draft.add, Entries.within, Entries.insert, Entries.lookup_concat hname, hkey,
    Entries.put_of_lookup hkey, Entries.put_concat hname]

/-! ## All lines -/

/-- The entries that the pairs of a table come to. -/
def pairEntries (pairs : List (String × Scalar)) : Entries :=
  pairs.map fun (key, value) => (key, .value value.data)

/-- The entries that tables come to. -/
def tableEntries (tables : List Section) : Entries :=
  tables.map fun table => (table.name, .table .declared (pairEntries table.pairs))

theorem foldlM_blank (rows : List Row) (draft : Draft) :
    (rows.map Row.line).foldlM Draft.add draft =
      ((rows.filter (!·.isBlank)).map Row.line).foldlM Draft.add draft := by
  induction rows generalizing draft with
  | nil => rfl
  | cons row rows ih =>
      cases row with
      | blank => exact ih draft
      | header | pair =>
          simp only [List.map_cons, List.foldlM_cons, List.filter_cons, Row.isBlank,
            Bool.not_false, if_true, ih]

theorem lookup_eq_none_of_nodup {names : List String}
    (h : (entries.map Prod.fst ++ name :: names).Nodup) : entries.lookup name = none := by
  apply List.lookup_eq_none_iff.mpr
  intro entry hentry
  have hne := (List.nodup_append.mp h).2.2 entry.1 (List.mem_map_of_mem hentry) name
    List.mem_cons_self
  simpa using hne.symm

theorem foldlM_pairs (inner : Entries) (hname : entries.lookup name = none)
    (pairs : List (String × Scalar))
    (hkeys : (inner.map Prod.fst ++ pairs.map Prod.fst).Nodup) :
    (pairs.map fun (key, value) => Line.pair [key] value.data).foldlM Draft.add
        ⟨entries ++ [(name, .table .declared inner)], [name]⟩ =
      some ⟨entries ++ [(name, .table .declared (inner ++ pairEntries pairs))], [name]⟩ := by
  induction pairs generalizing inner with
  | nil => simp [pairEntries]
  | cons pair pairs ih =>
      obtain ⟨key, value⟩ := pair
      have hkey : inner.lookup key = none := lookup_eq_none_of_nodup hkeys
      have hmore : ((inner ++ [(key, Node.value value.data)]).map Prod.fst ++
          pairs.map Prod.fst).Nodup := by
        simpa using hkeys
      rw [List.map_cons, List.foldlM_cons, add_pair hname hkey, Option.bind_eq_bind,
        Option.bind_some, ih _ hmore]
      simp [pairEntries]

theorem foldlM_rows (table : Section) (hname : entries.lookup table.name = none)
    (hkeys : (table.pairs.map Prod.fst).Nodup) :
    (table.rows.map Row.line).foldlM Draft.add ⟨entries, path⟩ =
      some ⟨entries ++ tableEntries [table], [table.name]⟩ := by
  have hlines : table.rows.map Row.line = .header [table.name] ::
      table.pairs.map fun (key, value) => Line.pair [key] value.data := by
    simp [Section.rows, Row.line]
  rw [hlines, List.foldlM_cons, add_header hname, Option.bind_eq_bind, Option.bind_some,
    foldlM_pairs [] hname table.pairs hkeys]
  rfl

/-- The run: the lines of tables build these tables up. -/
theorem foldlM_tables (entries : Entries) (path : List String) (tables : List Section)
    (hnames : (entries.map Prod.fst ++ tables.map Section.name).Nodup)
    (hkeys : ∀ table ∈ tables, (table.pairs.map Prod.fst).Nodup) :
    ∃ last, ((tables.flatMap Section.rows).map Row.line).foldlM Draft.add ⟨entries, path⟩ =
      some ⟨entries ++ tableEntries tables, last⟩ := by
  induction tables generalizing entries path with
  | nil => exact ⟨path, by simp [tableEntries]⟩
  | cons table tables ih =>
      obtain ⟨hfirst, hothers⟩ := List.forall_mem_cons.mp hkeys
      have hname : entries.lookup table.name = none := lookup_eq_none_of_nodup hnames
      have hmore : ((entries ++ tableEntries [table]).map Prod.fst ++
          tables.map Section.name).Nodup := by
        simpa [tableEntries] using hnames
      obtain ⟨last, hlast⟩ := ih _ [table.name] hmore hothers
      refine ⟨last, ?_⟩
      rw [List.flatMap_cons, List.map_append, List.foldlM_append, foldlM_rows table hname hfirst,
        Option.bind_eq_bind, Option.bind_some, hlast]
      simp [tableEntries]

theorem recordOf_pairEntries (pairs : List (String × Scalar)) :
    Node.recordOf (pairEntries pairs) =
      pairs.map fun (key, value) => (some key, value.data) := by
  induction pairs with
  | nil => simp [pairEntries, Node.recordOf]
  | cons pair pairs ih =>
      rw [pairEntries, List.map_cons, Node.recordOf, List.map_cons, ← ih]
      rfl

theorem recordOf_tableEntries (tables : List Section) :
    Node.recordOf (tableEntries tables) =
      tables.map fun table => (some table.name, table.data) := by
  induction tables with
  | nil => simp [tableEntries, Node.recordOf]
  | cons table tables ih =>
      rw [tableEntries, List.map_cons, Node.recordOf, List.map_cons, ← ih, Node.toData,
        recordOf_pairEntries]
      simp [Section.data, Section.fields, Data.ofFields, tableEntries]

/-- What a blank row has anyway all rows have when those of the tables have it. -/
theorem forall_mem_rows_iff {rows : List Row} {tables : List Section} (has : Row → Prop)
    (hblank : has .blank) (hrows : rows.filter (!·.isBlank) = tables.flatMap Section.rows) :
    (∀ row ∈ rows, has row) ↔ ∀ table ∈ tables, ∀ row ∈ table.rows, has row := by
  have htables : (∀ row ∈ tables.flatMap Section.rows, has row) ↔
      ∀ table ∈ tables, ∀ row ∈ table.rows, has row := by
    simp only [List.mem_flatMap]
    exact ⟨fun h table htable row hrow => h row ⟨table, htable, hrow⟩,
      fun h row hrow => let ⟨table, htable, hrow⟩ := hrow; h table htable row hrow⟩
  rw [← htables, ← hrows]
  constructor
  · intro h row hrow
    exact h row (List.mem_filter.mp hrow).1
  · intro h row hrow
    cases row with
    | blank => exact hblank
    | header | pair => exact h _ (List.mem_filter.mpr ⟨hrow, rfl⟩)

theorem exists_layout_iff_of_tables {rows : List Row} {tables : List Section}
    (hrows : rows.filter (!·.isBlank) = tables.flatMap Section.rows) :
    (∃ written, layout? rows = some written) ↔
      ∀ table ∈ tables, ∀ pair ∈ table.pairs, pair.2.Fits := by
  have hpairs (table : Section) : (∀ row ∈ table.rows, row.Fits) ↔
      ∀ pair ∈ table.pairs, pair.2.Fits := by
    rw [Section.rows, List.forall_mem_cons, List.forall_mem_map]
    exact and_iff_right trivial
  rw [exists_layout_iff, forall_mem_rows_iff Row.Fits trivial hrows]
  simp only [hpairs]

/-- The rows of tables with different names are read as these tables, whatever blank rows stand
between them. -/
theorem parse?_layout {rows : List Row} {tables : List Section} {written : String}
    (hnamed : WellNamed tables) (hrows : rows.filter (!·.isBlank) = tables.flatMap Section.rows)
    (h : layout? rows = some written) :
    parse? written = some (.ofFields (tables.map fun table => (table.name, table.data))) := by
  have hbare : ∀ row ∈ rows, row.IsBare := by
    apply (forall_mem_rows_iff Row.IsBare trivial hrows).mpr
    intro table htable row hrow
    rcases List.mem_cons.mp hrow with rfl | hrow
    · exact hnamed.bare table htable _ List.mem_cons_self
    · obtain ⟨pair, hpair, rfl⟩ := List.mem_map.mp hrow
      exact hnamed.bare table htable _ (List.mem_cons_of_mem _ (List.mem_map_of_mem hpair))
  have hread := readLines_layout hbare h (Nat.lt_add_one written.toList.length)
  have hmark := toList_layout_ne hbare h
  obtain ⟨last, hfold⟩ := foldlM_tables [] [] tables (by simpa using hnamed.nodup) hnamed.nodup_keys
  rw [← hrows, ← foldlM_blank, List.nil_append] at hfold
  have hrecord : Data.record (Node.recordOf (tableEntries tables)) =
      .ofFields (tables.map fun table => (table.name, table.data)) := by
    simp [recordOf_tableEntries, Data.ofFields]
  simp only [parse?, hread, hfold, Option.bind_eq_bind, Option.bind_some, hrecord]

/-! ## What is left out -/

variable {tables : List Section} {keepsTable : String → Bool} {keepsKey : String → String → Bool}

/-- A table without the pairs of some keys. -/
def Section.keeping (keeps : String → Bool) (table : Section) : Section :=
  { table with pairs := table.pairs.filter fun pair => keeps pair.1 }

/-- The tables that are left of a document without some tables and without some keys of others. -/
def keepTables (keepsTable : String → Bool) (keepsKey : String → String → Bool)
    (tables : List Section) : List Section :=
  (tables.filter fun table => keepsTable table.name).map fun table =>
    table.keeping (keepsKey table.name)

theorem WellNamed.keepTables (h : WellNamed tables) :
    WellNamed (Toml.keepTables keepsTable keepsKey tables) := by
  constructor
  case nodup =>
    have hnames : (Toml.keepTables keepsTable keepsKey tables).map Section.name =
        (tables.filter fun table => keepsTable table.name).map Section.name := by
      simp [Toml.keepTables, Section.keeping]
    rw [hnames]
    exact h.nodup.sublist (List.filter_sublist.map Section.name)
  case bare =>
    intro table htable name hname
    obtain ⟨whole, hwhole, rfl⟩ := List.mem_map.mp htable
    refine h.bare whole (List.mem_filter.mp hwhole).1 name ?_
    rcases List.mem_cons.mp hname with rfl | hname
    · exact List.mem_cons_self
    · exact List.mem_cons_of_mem _ ((List.filter_sublist.map Prod.fst).subset hname)
  case nodup_keys =>
    intro table htable
    obtain ⟨whole, hwhole, rfl⟩ := List.mem_map.mp htable
    exact (h.nodup_keys whole (List.mem_filter.mp hwhole).1).sublist
      (List.filter_sublist.map Prod.fst)

theorem lookup_filter {α : Type} (keeps : String → Bool) (entries : List (String × α))
    (name : String) :
    (entries.filter fun entry => keeps entry.1).lookup name =
      if keeps name then entries.lookup name else none := by
  induction entries with
  | nil => simp
  | cons entry entries ih =>
      obtain ⟨key, value⟩ := entry
      rw [List.filter_cons, List.lookup_cons]
      by_cases hkey : name = key
      · subst hkey
        cases hkeeps : keeps name <;> simp [ih, hkeeps]
      · have hne : (name == key) = false := beq_eq_false_iff_ne.mpr hkey
        cases keeps key <;> simp [List.lookup_cons, hne, ih]

theorem lookup_fields_keeping (keeps : String → Bool) (table : Section) (name : String) :
    (table.keeping keeps).fields.lookup name =
      if keeps name then table.fields.lookup name else none := by
  rw [← lookup_filter, Section.fields, Section.fields, Section.keeping, List.filter_map]
  rfl

theorem lookup_keepTables (name : String) :
    ((keepTables keepsTable keepsKey tables).map fun table => (table.name, table.data)).lookup
        name =
      if keepsTable name then
        (tables.map fun table =>
          (table.name, (table.keeping (keepsKey table.name)).data)).lookup name
      else none := by
  rw [← lookup_filter, keepTables, List.map_map, List.filter_map]
  rfl

end Marginalia.Toml
