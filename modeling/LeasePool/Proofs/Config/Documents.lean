import LeasePool.Process.Startup
import LeasePool.Proofs.Json.Layout
import LeasePool.Proofs.Text.Utf8
import LeasePool.Proofs.Toml.Documents

/-!
# A configuration survives being written

The fields of a configuration are texts, numbers and truth values, in tables and in tables of
tables. Each of these is read from a document as it was written, whatever the texts are made of, and
so the whole configuration is.
-/

namespace LeasePool

open Json

variable {r : RecordReader}

/-! ## Records -/

/-- A field that is there is read, whatever would stand for it otherwise. -/
theorem Json.defaulted?_of_eq_some {α : Type} (fallback : α) {a : α} {read : Json → Option α}
    {x : Json} (h : read x = some a) : defaulted? fallback read (some x) = some a := h

/-- **The members of an object are the fields of a record**, unless a key is repeated. -/
theorem RecordReader.fields?_object (r : RecordReader) (ms : List (String × Json))
    (distinct : (ms.map (·.1)).Nodup) :
    r.fields? (ms.map (·.1)) (.object ms) = some (ms.map fun m => some m.2) := by
  have short : (object ms).isLongerThan (ms.map (·.1)).length = false := rfl
  rw [RecordReader.fields?, record?, short, fields?_members distinct]
  simp

/-- The field of an object with one member. -/
theorem RecordReader.fields?_one {k : String} {x : Json} :
    r.fields? [k] (.object [(k, x)]) = some [some x] :=
  r.fields?_object [(k, x)] (by simp)

/-- The fields of an object with two members. -/
theorem RecordReader.fields?_two {k l : String} {x y : Json} (distinct : k ≠ l) :
    r.fields? [k, l] (.object [(k, x), (l, y)]) = some [some x, some y] :=
  r.fields?_object [(k, x), (l, y)] (by simpa using distinct)

theorem LeaseSettings.decode?_encode (s : LeaseSettings) : decode? r s.encode = some s := by
  rw [decode?, encode, r.fields?_two (by decide)]
  simp [defaulted?, int32?_int, bool?]

theorem ScheduleSettings.decode?_encode (s : ScheduleSettings) : decode? r s.encode = some s := by
  rw [decode?, encode, r.fields?_two (by decide)]
  simp [defaulted?, string?]

namespace PoolSettings

/-- The key of a role in a value for each role. -/
def roleKey : Role → String
  | .leader => "leader"
  | .member => "member"

/-- **A value for each role** is read as it was written, whichever role comes first. -/
theorem perRole?_object {α : Type} {encode : α → Json} {fallback : α} {read : Json → Option α}
    (reads : ∀ a, read (encode a) = some a) (first second : Role) (distinct : first ≠ second)
    (values : PerRole α) :
    perRole? r (first, second) fallback read
      (.object [(roleKey first, encode (values.get first)),
        (roleKey second, encode (values.get second))]) = some values := by
  match first, second with
  | .leader, .leader | .member, .member => contradiction
  | .leader, .member | .member, .leader =>
    simp [perRole?, r.fields?_two, defaulted?, reads, roleKey, PerRole.get]

theorem pool?_object (pool : String) :
    pool? r (.object [("name", .string pool)]) = some pool := by
  rw [pool?, r.fields?_one]
  rfl

theorem requireLease?_object (b : Bool) :
    requireLease? r (.object [("require_lease", .bool b)]) = some b := by
  rw [requireLease?, r.fields?_one]
  rfl

/-- **The settings are read** from their four tables. -/
theorem ofTables?_tables (s : PoolSettings) :
    ofTables? r (s.tables.map fun m => some m.2) = some s := by
  have lease : perRole? r (.member, .leader) {} (LeaseSettings.decode? r)
      (.object [("member", s.lease.member.encode), ("leader", s.lease.leader.encode)]) =
        some s.lease :=
    perRole?_object LeaseSettings.decode?_encode .member .leader nofun s.lease
  have schedule : perRole? r (.leader, .member) {} (ScheduleSettings.decode? r)
      (.object [("leader", s.schedule.leader.encode), ("member", s.schedule.member.encode)]) =
        some s.schedule :=
    perRole?_object ScheduleSettings.decode?_encode .leader .member nofun s.schedule
  simp [tables, ofTables?, defaulted?, pool?_object, requireLease?_object, lease, schedule]

end PoolSettings

namespace ProcessConfig

theorem port?_int (n : UInt16) : port? (.int n.toNat) = some n := by
  have bound : (0 : Int) ≤ n.toNat ∧ (n.toNat : Int) < Int.pow 2 16 :=
    ⟨Int.natCast_nonneg _, Int.ofNat_lt.2 n.toNat_lt⟩
  rw [port?, int, integer?, if_pos bound, Option.map_some, Int.toNat_natCast, UInt16.ofNat_toNat]

theorem clusterAccess?_object (a : ClusterAccess) :
    clusterAccess? r (.object [("api_server", .string a.apiServer),
      ("token_file", .string a.tokenFile), ("ca_file", .string a.authorityFile)]) = some a := by
  have fields := r.fields?_object [("api_server", .string a.apiServer),
    ("token_file", .string a.tokenFile), ("ca_file", .string a.authorityFile)] (by simp)
  simp only [List.map_cons, List.map_nil] at fields
  rw [clusterAccess?, fields]
  simp [defaulted?, string?]

/-- **A configuration is read** from its JSON document as it is. -/
theorem decode?_encode (c : ProcessConfig) : decode? r c.encode = some c := by
  obtain ⟨ms, whole, names, values⟩ : ∃ ms, c.encode = .object ms ∧
      ms.map (·.1) = fieldNames ++ PoolSettings.tableNames ∧
      ms.map (fun m => some m.2) =
        some (.string c.store) :: some (.string c.identity) :: some (.string c.ns) ::
          some (.string c.bind) :: some (.int c.port.toNat) :: some (.string c.patience) ::
          some (.string c.grace) :: some (.int c.replicas.toInt) ::
          some (.object [("api_server", .string c.cluster.apiServer),
            ("token_file", .string c.cluster.tokenFile),
            ("ca_file", .string c.cluster.authorityFile)]) ::
          c.settings.tables.map fun m => some m.2 :=
    ⟨_, rfl, rfl, rfl⟩
  have fields := r.fields?_object ms (by rw [names]; decide)
  rw [names, values] at fields
  have text : ∀ fallback s, defaulted? fallback string? (some (.string s)) = some s :=
    fun _ _ => rfl
  have port : defaulted? 8080 port? (some (.int c.port.toNat)) = some c.port :=
    defaulted?_of_eq_some _ (port?_int c.port)
  have replicas : defaulted? 1 int32? (some (.int c.replicas.toInt)) = some c.replicas :=
    defaulted?_of_eq_some _ (int32?_int c.replicas)
  have cluster := defaulted?_of_eq_some {} (clusterAccess?_object (r := r) c.cluster)
  rw [decode?, whole, fields, Option.bind_eq_bind, Option.bind_some]
  simp only [text, port, replicas, cluster, PoolSettings.ofTables?_tables, Option.bind_eq_bind,
    Option.bind_some, Option.pure_def]

/-! ## The document -/

/-- The configuration as a document of values and tables. -/
def document (c : ProcessConfig) : Toml.Document where
  entries := [("store", .string c.store), ("identity", .string c.identity),
    ("namespace", .string c.ns), ("bind", .string c.bind),
    ("health_port", .integer c.port.toNat), ("await_lease_timeout", .string c.patience),
    ("shutdown_grace", .string c.grace), ("replicas", .integer c.replicas.toInt)]
  parts :=
    [.table "kubernetes" [("api_server", .string c.cluster.apiServer),
        ("token_file", .string c.cluster.tokenFile),
        ("ca_file", .string c.cluster.authorityFile)],
      .table "pool" [("name", .string c.settings.pool)],
      .group "lease" ("member", leaseEntries c.settings.lease.member)
        [("leader", leaseEntries c.settings.lease.leader)],
      .group "schedulers" ("leader", scheduleEntries c.settings.schedule.leader)
        [("member", scheduleEntries c.settings.schedule.member)],
      .table "readiness" [("require_lease", .boolean c.settings.requireLease)]]

theorem sections_document (c : ProcessConfig) : c.document.sections = c.sections := rfl

theorem toJson_members (c : ProcessConfig) :
    .object (Toml.membersToJson c.document.members) = c.encode := rfl

theorem fits_string (s : String) : (Toml.Scalar.string s).Fits := trivial

theorem fits_boolean (b : Bool) : (Toml.Scalar.boolean b).Fits := trivial

/-- Numbers of at most 32 bits can be written. -/
theorem fits_of_bounds {n : Int} (low : -2147483648 ≤ n) (high : n < 2147483648) :
    (Toml.Scalar.integer n).Fits := by
  have bound : Int.pow 2 63 = 9223372036854775808 := rfl
  rw [Toml.Scalar.Fits, bound]
  omega

theorem fits_int32 (n : Int32) : (Toml.Scalar.integer n.toInt).Fits :=
  fits_of_bounds (Int32.le_toInt n) (Int32.toInt_lt n)

theorem fits_uint16 (n : UInt16) : (Toml.Scalar.integer n.toNat).Fits := by
  have bound := n.toNat_lt
  exact fits_of_bounds (by omega) (by omega)

/-- The keys that a table is written with. -/
def keysOf (s : Toml.Section) : List String × List String := (s.path, s.entries.map (·.1))

/-- **The tables can be written**: their keys, which are the same for each configuration, need no
quotes, and their numbers are not too great. -/
theorem isPlain_sections (c : ProcessConfig) : ∀ s ∈ c.sections, s.IsPlain := by
  have bare : ∀ keys ∈ ({} : ProcessConfig).sections.map keysOf,
      (∀ k ∈ keys.1, Toml.IsBareKey k) ∧ keys.1.length ≤ Toml.depthLimit ∧
        ∀ k ∈ keys.2, Toml.IsBareKey k := by decide +kernel
  have same : c.sections.map keysOf = ({} : ProcessConfig).sections.map keysOf := rfl
  have fit : ∀ s ∈ c.sections, ∀ e ∈ s.entries, e.2.Fits := by
    simp only [sections, leaseEntries, scheduleEntries, List.forall_mem_cons, fits_string,
      fits_boolean, fits_int32, fits_uint16, List.not_mem_nil, false_imp_iff, implies_true,
      and_self]
  intro s hs
  obtain ⟨path, short, keys⟩ := bare (keysOf s) (same ▸ List.mem_map_of_mem hs)
  exact ⟨path, short, fun e he => ⟨keys _ (List.mem_map_of_mem he), fit s hs e he⟩⟩

/-- **The document can be written**, and repeats no key. -/
theorem isPlain_document (c : ProcessConfig) : c.document.IsPlain where
  sections := isPlain_sections c
  keys := by
    have names : c.document.entries.map (·.1) ++ c.document.parts.map Toml.Part.key =
        fieldNames ++ PoolSettings.tableNames := rfl
    rw [names]
    decide
  parts := by simp [document, Toml.Part.HasDistinctKeys, leaseEntries, scheduleEntries]

/-- **A configuration is read** from its TOML document as it is. -/
theorem ofToml?_toToml (c : ProcessConfig) : ofToml? c.toToml = some c := by
  have read := Toml.Document.parse?_render (isPlain_document c)
  rw [sections_document] at read
  rw [ofToml?, toToml, read, Option.bind_eq_bind, Option.bind_some, toJson_members, decode?_encode]

end ProcessConfig

/-! ## Files -/

/-- Options that name a configuration file and nothing else. -/
def Options.fileOnly (path : String) : Options where
  value? s := if s = .config then some path else none
  isOn _ := false

/-- They change nothing in a configuration. -/
theorem Options.apply_fileOnly {path : String} (c : ProcessConfig) :
    (fileOnly path).apply c = c := by
  have unset : ∀ s, s ≠ .config → (fileOnly path).value? s = none := fun s other => if_neg other
  have off : ∀ w, (fileOnly path).isOn w = false := fun _ => rfl
  have port : (fileOnly path).number? .healthPort = none := by
    rw [number?, unset .healthPort nofun]
    rfl
  have replicas : (fileOnly path).number? .replicas = none := by
    rw [number?, unset .replicas nofun]
    rfl
  simp [apply, unset, off, port, replicas]

variable {text path : String} {files : Files} {s : Surroundings} {o : Options} {c : ProcessConfig}

/-- The text of a file that a text has been written to. -/
theorem Files.text_encode (written : files path = .ok (Text.Utf8.encode text)) :
    files.text path = .ok text := by
  rw [Files.text, written]
  simp only [Text.Utf8.decode?_encode]

/-- **A process starts with what its configuration file says**, under its options and the check. -/
theorem Surroundings.configure_of_file (named : o.value? .config = some path)
    (written : s.files path = .ok (Text.Utf8.encode text))
    (read : ProcessConfig.ofToml? text = some c) :
    s.configure o = (orFail .invalidConfig (o.apply c).check).map fun _ => o.apply c := by
  have file : orFail (.unreadableConfig path) (s.files.text path) = .ok text := by
    rw [Files.text_encode written]
    rfl
  simp only [configure, named, file, bind, Except.bind, read, pure, Except.pure]
  cases orFail .invalidConfig (o.apply c).check <;> rfl

namespace ProcessConfig

/-- The text keeps the configuration for whoever reads it. -/
structure IsKeptBy (c : ProcessConfig) (text : String) : Prop where
  /-- The text is read as the configuration. -/
  read : ofToml? text = some c
  /-- A file that the text has been written to is read as the text. -/
  file : ∀ {files : Files} {path : String}, files path = .ok (Text.Utf8.encode text) →
    files.text path = .ok text
  /-- A process that is told to read this file starts with the configuration, unless that has a
  fault. -/
  start : ∀ {s : Surroundings} {path : String}, s.files path = .ok (Text.Utf8.encode text) →
    s.configure (.fileOnly path) = (orFail .invalidConfig c.check).map fun _ => c
  /-- Other options take the place of single fields. -/
  options : ∀ {s : Surroundings} {o : Options} {path : String}, o.value? .config = some path →
    s.files path = .ok (Text.Utf8.encode text) →
      s.configure o = (orFail .invalidConfig (o.apply c).check).map fun _ => o.apply c

/-- **A configuration survives being written.** Whatever characters its texts are made of, and
whatever its numbers are, the TOML document that is written of it is read as this configuration, as
a text and as a file. -/
theorem isKeptBy_toToml (c : ProcessConfig) : c.IsKeptBy c.toToml := by
  have read := ofToml?_toToml c
  constructor
  · exact read
  · intro files path written
    exact Files.text_encode written
  · intro s path written
    have named : (Options.fileOnly path).value? .config = some path := rfl
    rw [Surroundings.configure_of_file named written read, Options.apply_fileOnly]
  · intro s o path named written
    exact Surroundings.configure_of_file named written read

end ProcessConfig

end LeasePool
