import Marginalia.Proofs.FileTree
import Marginalia.Proofs.Toml.Document
import Marginalia.Settings

/-! # Settings read back

What is saved can be read again: the texts because every form of a text is read as that text, and
the counts because those that do not fit are not written. A file from which tables or keys were
taken out is read as well; what is missing has its default, whether the key is gone or its table.
-/

namespace Marginalia

/-! ## Fields with defaults -/

theorem lookup_map_some (fields : List (String × Data)) (name : String) :
    (fields.map fun (name, value) => (some name, value)).lookup (some name) =
      fields.lookup name := by
  induction fields with
  | nil => rfl
  | cons field fields ih =>
      obtain ⟨key, value⟩ := field
      simp only [List.map_cons, List.lookup_cons, ih]
      rfl

/-- A record without a name that comes twice is read by name. -/
theorem Data.fields?_ofFields {fields : List (String × Data)}
    (h : (fields.map Prod.fst).Nodup) (dialect : Dialect) (names : List String) :
    (Data.ofFields fields).fields? dialect names = some ⟨true, fun name => fields.lookup name⟩ := by
  have hnamed : (fields.map fun (name, value) => (some name, value)).any (·.1.isNone) = false := by
    simp
  have honce : (names.any fun name =>
      1 < ((fields.map fun (name, value) => (some name, value)).filter
        (·.1 == some name)).length) = false := by
    apply List.any_eq_false.mpr
    intro name _
    have hcount : (fields.filter fun field => field.1 == name).length ≤ 1 := by
      have hname := List.nodup_iff_count.mp h name
      rwa [List.count_eq_length_filter, List.filter_map, List.length_map] at hname
    simp [List.filter_map, Function.comp_def, Nat.not_lt.mpr hcount]
  simp only [ofFields, fields?, hnamed, honce, lookup_map_some]
  rfl

/-- A field that may have been left out. -/
theorem Fields.orDefault_of_find {α : Type} {fields : Fields} {name : String} {keeps : Bool}
    {data : Data} {read : Data → Option α} (own default : α)
    (hfind : fields.find name = if keeps then some data else none) (hread : read data = some own) :
    fields.orDefault name read default = some (if keeps then own else default) := by
  cases keeps <;> simp_all [orDefault]

/-! ## What is kept -/

/-- The settings that have their own value for the keys that are kept, and the default for the
others. -/
def TranslateSettings.keeping (keeps : String → Bool) (settings : TranslateSettings) :
    TranslateSettings :=
  let defaults : TranslateSettings := { }
  { sourceLanguage :=
      if keeps "source_language" then settings.sourceLanguage else defaults.sourceLanguage
    targetLanguage :=
      if keeps "target_language" then settings.targetLanguage else defaults.targetLanguage
    provider := if keeps "provider" then settings.provider else defaults.provider
    libreUrl := if keeps "libre_translate_url" then settings.libreUrl else defaults.libreUrl
    delay := if keeps "request_delay_ms" then settings.delay else defaults.delay
    timeout := if keeps "request_timeout_secs" then settings.timeout else defaults.timeout
    cacheCapacity :=
      if keeps "cache_capacity" then settings.cacheCapacity else defaults.cacheCapacity }

theorem TranslateSettings.ite_keeping (table : Bool) (keeps : String → Bool)
    (settings : TranslateSettings) :
    (if table then settings.keeping keeps else { }) =
      settings.keeping fun key => table && keeps key := by
  cases table <;> rfl

namespace Settings

/-- The settings that have their own value for the keys of tables that are kept, and the default
for the others. -/
def keeping (keeps : String → String → Bool) (settings : Settings) : Settings :=
  let defaults : Settings := { }
  { translate := settings.translate.keeping (keeps "translate")
    historyCapacity :=
      if keeps "history" "capacity" then settings.historyCapacity else defaults.historyCapacity
    languagesFile :=
      if keeps "extract" "languages_file" then settings.languagesFile else defaults.languagesFile }

/-- Whether all counts fit the signed 64 bits. -/
structure CountsFit (settings : Settings) : Prop where
  delay : settings.translate.delay < Nat.pow 2 63
  timeout : settings.translate.timeout < Nat.pow 2 63
  cacheCapacity : settings.translate.cacheCapacity < Nat.pow 2 63
  historyCapacity : settings.historyCapacity < Nat.pow 2 63

variable {settings : Settings} {keepsTable : String → Bool} {keepsKey : String → String → Bool}

/-! ## The document -/

theorem names_tables (settings : Settings) :
    settings.tables.map Toml.Section.names =
      [["translate", "source_language", "target_language", "provider", "libre_translate_url",
          "request_delay_ms", "request_timeout_secs", "cache_capacity"],
        ["history", "capacity"],
        "extract" :: if settings.languagesFile.isSome then ["languages_file"] else []] := by
  cases hfile : settings.languagesFile <;> simp [tables, Toml.Section.names, hfile]

theorem wellNamed_tables (settings : Settings) : Toml.WellNamed settings.tables := by
  have hnames : ∀ names ∈ settings.tables.map Toml.Section.names,
      (∀ name ∈ names, Toml.IsBareName name) ∧ names.tail.Nodup := by
    rw [names_tables]
    cases settings.languagesFile.isSome <;> decide
  constructor
  case nodup =>
    have htables : settings.tables.map Toml.Section.name = ["translate", "history", "extract"] :=
      rfl
    rw [htables]
    decide
  case bare =>
    intro table htable
    exact (hnames table.names (List.mem_map_of_mem htable)).1
  case nodup_keys =>
    intro table htable
    exact (hnames table.names (List.mem_map_of_mem htable)).2

theorem fits_tables_iff (settings : Settings) :
    (∀ table ∈ settings.tables, ∀ pair ∈ table.pairs, pair.2.Fits) ↔ settings.CountsFit := by
  have htexts : ∀ pair ∈ settings.languagesFile.toList.map fun path =>
      ("languages_file", Toml.Scalar.text path), pair.2.Fits := by
    intro pair hpair
    obtain ⟨path, -, rfl⟩ := List.mem_map.mp hpair
    trivial
  simp only [tables, List.forall_mem_cons]
  constructor
  · intro h
    obtain ⟨⟨-, -, -, -, hdelay, htimeout, hcache, -⟩, ⟨hhistory, -⟩, -⟩ := h
    exact ⟨hdelay, htimeout, hcache, hhistory⟩
  · intro h
    exact ⟨⟨trivial, trivial, trivial, trivial, h.delay, h.timeout, h.cacheCapacity,
      List.forall_mem_nil _⟩, ⟨h.historyCapacity, List.forall_mem_nil _⟩, htexts,
      List.forall_mem_nil _⟩

/-! ## The values -/

/-- The table of the settings for translation. -/
def translateTable (translate : TranslateSettings) : Toml.Section :=
  ⟨"translate",
    [("source_language", .text translate.sourceLanguage),
      ("target_language", .text translate.targetLanguage),
      ("provider", .text translate.provider.key),
      ("libre_translate_url", .text translate.libreUrl),
      ("request_delay_ms", .count translate.delay),
      ("request_timeout_secs", .count translate.timeout),
      ("cache_capacity", .count translate.cacheCapacity)]⟩

/-- The table of the setting for the history. -/
def historyTable (capacity : Nat) : Toml.Section := ⟨"history", [("capacity", .count capacity)]⟩

/-- The table of the setting for the languages, which is empty without one. -/
def extractTable (file : Option String) : Toml.Section :=
  ⟨"extract", file.toList.map fun path => ("languages_file", .text path)⟩

theorem tables_eq (settings : Settings) :
    settings.tables = [translateTable settings.translate, historyTable settings.historyCapacity,
      extractTable settings.languagesFile] :=
  rfl

/-- The fields of a table from which keys were left out. -/
theorem fields?_keeping {table : Toml.Section} (h : (table.pairs.map Prod.fst).Nodup)
    (keeps : String → Bool) (names : List String) :
    (table.keeping keeps).data.fields? .toml names = some ⟨true, fun name =>
      if keeps name then table.fields.lookup name else none⟩ := by
  have hnodup : ((table.keeping keeps).fields.map Prod.fst).Nodup := by
    have hkeys : (table.keeping keeps).fields.map Prod.fst =
        (table.pairs.filter fun pair => keeps pair.1).map Prod.fst := by
      simp [Toml.Section.fields, Toml.Section.keeping]
    rw [hkeys]
    exact h.sublist (List.filter_sublist.map Prod.fst)
  rw [Toml.Section.data, Data.fields?_ofFields hnodup]
  simp only [Toml.lookup_fields_keeping]

theorem ofData?_translateTable (keeps : String → Bool) (translate : TranslateSettings) :
    TranslateSettings.ofData? .toml ((translateTable translate).keeping keeps).data =
      some (translate.keeping keeps) := by
  have hnodup : ((translateTable translate).pairs.map Prod.fst).Nodup := by
    simp [translateTable]
  have hprovider : ((Data.ofString translate.provider.key).choice? .toml).bind Provider.ofKey? =
      some translate.provider := Provider.ofKey?_key translate.provider
  rw [TranslateSettings.ofData?, fields?_keeping hnodup]
  simp only [Option.bind_eq_bind, Option.bind_some]
  rw [Fields.orDefault_of_find translate.sourceLanguage _ rfl rfl,
    Fields.orDefault_of_find translate.targetLanguage _ rfl rfl,
    Fields.orDefault_of_find translate.provider _ rfl hprovider,
    Fields.orDefault_of_find translate.libreUrl _ rfl rfl,
    Fields.orDefault_of_find translate.delay _ rfl rfl,
    Fields.orDefault_of_find translate.timeout _ rfl rfl,
    Fields.orDefault_of_find translate.cacheCapacity _ rfl rfl]
  rfl

theorem ofData?_historyTable (keeps : String → Bool) (capacity : Nat) :
    historyOfData? .toml ((historyTable capacity).keeping keeps).data =
      some (if keeps "capacity" then capacity else History.defaultCapacity) := by
  rw [historyOfData?, fields?_keeping (by simp [historyTable])]
  exact Fields.orDefault_of_find _ _ rfl rfl

theorem ofData?_extractTable (keeps : String → Bool) (file : Option String) :
    extractOfData? .toml ((extractTable file).keeping keeps).data =
      some (if keeps "languages_file" then file else none) := by
  have hnodup : ((extractTable file).pairs.map Prod.fst).Nodup := by
    cases file <;> simp [extractTable]
  rw [extractOfData?, fields?_keeping hnodup]
  cases file with
  | none =>
      have hnone : ∀ name, (extractTable none).fields.lookup name = none := fun _ => rfl
      simp only [hnone, ite_self]
      rfl
  | some path => exact Fields.orDefault_of_find _ _ rfl rfl

theorem ite_ite_kept {α : Type} (table key : Bool) (own default : α) :
    (if table then if key then own else default else default) =
      if table && key then own else default := by
  cases table <;> rfl

/-- A table that is missing and one without any of its keys have the same values. -/
theorem ofData?_keepTables (settings : Settings) :
    ofData? .toml (.ofFields ((Toml.keepTables keepsTable keepsKey settings.tables).map
      fun table => (table.name, table.data))) =
      some (settings.keeping fun table key => keepsTable table && keepsKey table key) := by
  have hnodup : (((Toml.keepTables keepsTable keepsKey settings.tables).map
      fun table => (table.name, table.data)).map Prod.fst).Nodup := by
    rw [List.map_map]
    exact (wellNamed_tables settings).keepTables.nodup
  rw [ofData?, Data.fields?_ofFields hnodup]
  simp only [Option.bind_eq_bind, Option.bind_some, Toml.lookup_keepTables, tables_eq]
  rw [Fields.orDefault_of_find _ _ rfl (ofData?_translateTable (keepsKey "translate") _),
    Fields.orDefault_of_find _ _ rfl (ofData?_historyTable (keepsKey "history") _),
    Fields.orDefault_of_find _ _ rfl (ofData?_extractTable (keepsKey "extract") _)]
  simp only [Option.bind_some, ite_ite_kept, TranslateSettings.ite_keeping]
  rfl

/-! ## Saving and loading -/

/-- A document from which tables and keys were taken out is read, with whatever blank rows stand
in it. -/
theorem parse_layout (h : settings.CountsFit) {rows : List Toml.Row}
    (hrows : rows.filter (!·.isBlank) =
      (Toml.keepTables keepsTable keepsKey settings.tables).flatMap Toml.Section.rows) :
    ∃ text, Toml.layout? rows = some text ∧ parse text =
      .ok (settings.keeping fun table key => keepsTable table && keepsKey table key) := by
  have hfits : ∀ table ∈ Toml.keepTables keepsTable keepsKey settings.tables,
      ∀ pair ∈ table.pairs, pair.2.Fits := by
    intro table htable pair hpair
    obtain ⟨whole, hwhole, rfl⟩ := List.mem_map.mp htable
    exact settings.fits_tables_iff.mpr h whole (List.mem_filter.mp hwhole).1 pair
      (List.mem_filter.mp hpair).1
  obtain ⟨text, htext⟩ := (Toml.exists_layout_iff_of_tables hrows).mpr hfits
  refine ⟨text, htext, ?_⟩
  rw [parse, Toml.parse?_layout settings.wellNamed_tables.keepTables hrows htext,
    Option.bind_some, ofData?_keepTables]

theorem render?_eq_layout (settings : Settings) :
    settings.render? = Toml.layout? (Toml.documentRows settings.tables) :=
  (Toml.layout?_documentRows settings.tables).symm

theorem exists_render_iff (settings : Settings) :
    (∃ text, settings.render? = some text) ↔ settings.CountsFit := by
  rw [render?_eq_layout, Toml.exists_layout_iff_of_tables (Toml.filter_documentRows _),
    fits_tables_iff]

theorem keepTables_all (tables : List Toml.Section) :
    Toml.keepTables (fun _ => true) (fun _ _ => true) tables = tables := by
  have hpairs (pairs : List (String × Toml.Scalar)) : (pairs.filter fun _ => true) = pairs :=
    List.filter_eq_self.mpr fun _ _ => rfl
  have htables : (tables.filter fun _ => true) = tables :=
    List.filter_eq_self.mpr fun _ _ => rfl
  simp [Toml.keepTables, Toml.Section.keeping, hpairs, htables]

/-- The whole document is read as the settings that were saved. -/
theorem parse_render {text : String} (h : settings.render? = some text) :
    parse text = .ok settings := by
  have hcounts := settings.exists_render_iff.mp ⟨text, h⟩
  have hrows : (Toml.documentRows settings.tables).filter (!·.isBlank) =
      (Toml.keepTables (fun _ => true) (fun _ _ => true) settings.tables).flatMap
        Toml.Section.rows := by
    rw [keepTables_all, Toml.filter_documentRows]
  obtain ⟨written, hwritten, hparse⟩ := parse_layout hcounts hrows
  rw [← render?_eq_layout, h] at hwritten
  cases hwritten
  exact hparse

theorem save_of_render {text : String} (h : settings.render? = some text) (tree : FileTree)
    (path : String) :
    settings.save tree path =
      (tree.writeText path text).mapError fun fault => .setting (.notWritten fault) := by
  simp only [save, h]
  cases tree.writeText path text <;> rfl

/-- The files after settings were saved, which are those from before when that failed. -/
def filesAfterSave (settings : Settings) (tree : FileTree) (path : String) : FileTree :=
  match settings.save tree path with
  | .ok after => after
  | .error _ => tree

/-- Settings whose counts fit the signed 64 bits are saved wherever a text can be written, and
what is saved is loaded as these settings, whatever texts they hold. From what is saved tables
may be taken out, and keys out of others: the rows that are left, with blank rows anywhere, are read
as the settings with the default for all that is missing. Settings with a count that does not fit
are not saved, and the files stay as they are. -/
theorem readsBack_save (settings : Settings) :
    (settings.CountsFit → ∃ text, settings.render? = some text ∧
      Toml.layout? (Toml.documentRows settings.tables) = some text ∧
      ∀ tree path,
        settings.save tree path =
          (tree.writeText path text).mapError (fun fault => .setting (.notWritten fault)) ∧
        ∀ after, tree.writeText path text = .ok after →
          settings.filesAfterSave tree path = after ∧ load after path = .ok settings) ∧
    (settings.CountsFit → ∀ keepsTable keepsKey rows,
      rows.filter (!·.isBlank) =
        (Toml.keepTables keepsTable keepsKey settings.tables).flatMap Toml.Section.rows →
      ∃ text, Toml.layout? rows = some text ∧ parse text =
        .ok (settings.keeping fun table key => keepsTable table && keepsKey table key)) ∧
    (¬ settings.CountsFit → ∀ tree path,
      settings.save tree path = .error (.setting .unwritable) ∧
        settings.filesAfterSave tree path = tree) := by
  refine ⟨?_, ?_, ?_⟩
  · intro hcounts
    obtain ⟨text, htext⟩ := settings.exists_render_iff.mpr hcounts
    refine ⟨text, htext, settings.render?_eq_layout ▸ htext, ?_⟩
    intro tree path
    have hsave := save_of_render htext tree path
    refine ⟨hsave, ?_⟩
    intro after hafter
    rw [hafter] at hsave
    refine ⟨?_, ?_⟩
    · rw [filesAfterSave, hsave]
      rfl
    · rw [load, FileTree.readText_of_writeText hafter]
      exact parse_render htext
  · intro hcounts keepsTable keepsKey rows hrows
    exact parse_layout hcounts hrows
  · intro hcounts tree path
    have hnone : settings.render? = none := by
      cases hrender : settings.render? with
      | none => rfl
      | some text => exact absurd (settings.exists_render_iff.mp ⟨text, hrender⟩) hcounts
    have hsave : settings.save tree path = .error (.setting .unwritable) := by
      rw [save, hnone]
    refine ⟨hsave, ?_⟩
    rw [filesAfterSave, hsave]

/-- Settings whose texts need every form of a text: escapes, quotes of both kinds and line
breaks. -/
def awkwardSettings : Settings where
  translate := {
    sourceLanguage := "'\"\\\n\r\x07"
    targetLanguage := "\"\"\"\n'"
    provider := .libreTranslate
    libreUrl := "C:\\\"'"
    timeout := 0 }
  historyCapacity := 7
  languagesFile := some "a\tb # [c]"

/-- The whole document is loaded again. Without the table of the history, the provider and the only
key of the last table there are the defaults in their place. One more than the greatest count is
too much. -/
theorem readsBack_save_awkward :
    (∃ after, awkwardSettings.filesAfterSave { } "config.toml" = after ∧
      load after "config.toml" = .ok awkwardSettings) ∧
    (∃ text, Toml.layout? ((Toml.keepTables (· != "history")
        (fun _ key => key != "provider" && key != "languages_file")
        awkwardSettings.tables).flatMap Toml.Section.rows) = some text ∧
      parse text = .ok {
        translate := { awkwardSettings.translate with provider := .google }
        historyCapacity := 50
        languagesFile := none }) ∧
    { awkwardSettings with historyCapacity := Nat.pow 2 63 }.save { } "config.toml" =
      .error (.setting .unwritable) := by
  have hcounts : awkwardSettings.CountsFit := by
    constructor <;> decide
  obtain ⟨hsaved, hrest, -⟩ := readsBack_save awkwardSettings
  refine ⟨?_, ?_, ?_⟩
  · obtain ⟨text, -, -, hsave⟩ := hsaved hcounts
    exact ⟨_, (hsave { } "config.toml").2 _ rfl⟩
  · exact hrest hcounts (· != "history")
      (fun _ key => key != "provider" && key != "languages_file") _ rfl
  · obtain ⟨-, -, hrefused⟩ :=
      readsBack_save { awkwardSettings with historyCapacity := Nat.pow 2 63 }
    exact (hrefused (fun h => absurd h.historyCapacity (by decide)) { } "config.toml").1

end Settings

end Marginalia
