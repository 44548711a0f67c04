import LeasePool.Proofs.Toml.Tables

/-!
# Documents are read as they were written

A document has values, tables, and tables of tables, which have no header of their own. If no key is
repeated where it stands, what is read of the written document are just these, in the order in which
they were written.
-/

namespace LeasePool.Toml

/-! ## What is written -/

/-- A part of a document after its values. -/
inductive Part where
  /-- A table of values. -/
  | table (key : String) (entries : List (String × Scalar))
  /-- A table of tables, which is there for the sake of these. -/
  | group (key : String) (first : String × List (String × Scalar))
    (others : List (String × List (String × Scalar)))

namespace Part

/-- The key of the part in the document. -/
def key : Part → String
  | table key _ => key
  | group key _ _ => key

/-- The tables of the part that have a header. -/
def sections : Part → List Section
  | table key entries => [⟨[key], entries⟩]
  | group key first others => (first :: others).map fun t => ⟨[key, t.1], t.2⟩

/-- What is read of the part. -/
def item : Part → Item
  | table _ entries => tableOf entries
  | group _ first others => .table .implied ((first :: others).map fun t => (t.1, tableOf t.2))

/-- No table of the part repeats a key. -/
def HasDistinctKeys : Part → Prop
  | table _ entries => (entries.map (·.1)).Nodup
  | group _ first others =>
    ((first :: others).map (·.1)).Nodup ∧ ∀ t ∈ first :: others, (t.2.map (·.1)).Nodup

end Part

/-- A document: its values, and then its tables. -/
structure Document where
  entries : List (String × Scalar)
  parts : List Part

namespace Document

/-- The tables of the document that are written. -/
def sections (d : Document) : List Section := ⟨[], d.entries⟩ :: d.parts.flatMap Part.sections

/-- What is read of the document. -/
def members (d : Document) : Members := items d.entries ++ d.parts.map fun p => (p.key, p.item)

/-- The document can be written, and repeats no key. -/
structure IsPlain (d : Document) : Prop where
  sections : ∀ s ∈ d.sections, s.IsPlain
  keys : (d.entries.map (·.1) ++ d.parts.map Part.key).Nodup
  parts : ∀ p ∈ d.parts, p.HasDistinctKeys

end Document

/-! ## What lines do -/

/-- The lines turn some members of a document into others, whichever table the lines before them
were about. -/
def Extends (lines : List Line) (ms ms' : Members) : Prop :=
  ∀ current, ∃ current', lines.foldlM Draft.add? ⟨ms, current⟩ = some ⟨ms', current'⟩

variable {lines lines' : List Line} {ms ms' ms'' inner : Members} {trail : List Step}
  {key : String} {first : String × List (String × Scalar)}
  {tables others : List (String × List (String × Scalar))}

theorem extends_nil : Extends [] ms ms := fun current => ⟨current, rfl⟩

theorem Extends.append (h : Extends lines ms ms') (h' : Extends lines' ms' ms'') :
    Extends (lines ++ lines') ms ms'' := by
  intro current
  obtain ⟨middle, before⟩ := h current
  obtain ⟨last, after⟩ := h' middle
  refine ⟨last, ?_⟩
  rw [List.foldlM_append, before]
  exact after

/-- **Tables** are added to the end of another one. -/
theorem extends_tables (inner : Members) (opens : ∀ s ∈ trail, s.IsOpen)
    (distinct : (inner.map (·.1) ++ tables.map (·.1)).Nodup)
    (each : ∀ t ∈ tables, (t.2.map (·.1)).Nodup) :
    Extends (tables.flatMap fun t => Section.lines ⟨keys trail ++ [t.1], t.2⟩) (plug trail inner)
      (plug trail (inner ++ tables.map fun t => (t.1, tableOf t.2))) := by
  induction tables generalizing inner with
  | nil =>
    rw [List.map_nil, List.append_nil]
    exact extends_nil
  | cons t tables ih =>
    obtain ⟨here, later⟩ := List.forall_mem_cons.1 each
    have one : Extends (Section.lines ⟨keys trail ++ [t.1], t.2⟩) (plug trail inner)
        (plug trail (inner ++ [(t.1, tableOf t.2)])) :=
      fun _ => ⟨_, foldlM_table opens (notMem_of_nodup_append distinct) here⟩
    have others := ih (inner ++ [(t.1, tableOf t.2)])
      (by rwa [List.map_append, List.append_assoc]) later
    rw [List.append_assoc] at others
    rw [List.flatMap_cons]
    exact one.append others

/-- **Tables under a common key** are added to the end of a document. -/
theorem extends_group (fresh : key ∉ ms.map (·.1))
    (distinct : (Part.group key first others).HasDistinctKeys) :
    Extends ((first :: others).flatMap fun t => Section.lines ⟨[key, t.1], t.2⟩) ms
      (ms ++ [(key, .table .implied ((first :: others).map fun t => (t.1, tableOf t.2)))]) := by
  obtain ⟨keys, each⟩ := distinct
  obtain ⟨here, later⟩ := List.forall_mem_cons.1 each
  have opens : ∀ s ∈ [(⟨ms, key, .implied⟩ : Step)], s.IsOpen := by
    rintro s hs
    obtain rfl := List.mem_singleton.1 hs
    exact Step.isOpen_implied fresh
  have one : Extends (Section.lines ⟨[key, first.1], first.2⟩) ms
      (ms ++ [(key, .table .implied [(first.1, tableOf first.2)])]) :=
    fun _ => ⟨_, foldlM_nested opens_nil fresh here⟩
  have more := extends_tables [(first.1, tableOf first.2)] opens keys later
  exact one.append more

/-- **A part** is added to the end of a document. -/
theorem extends_part {p : Part} (fresh : p.key ∉ ms.map (·.1)) (distinct : p.HasDistinctKeys) :
    Extends (p.sections.flatMap Section.lines) ms (ms ++ [(p.key, p.item)]) := by
  cases p with
  | table key entries =>
    rw [Part.sections, List.flatMap_singleton]
    exact fun _ => ⟨_, foldlM_table opens_nil fresh distinct⟩
  | group key first others =>
    rw [Part.sections, List.flatMap_map]
    exact extends_group fresh distinct

/-- **The parts of a document** are added one after the other. -/
theorem extends_parts {parts : List Part}
    (distinct : (ms.map (·.1) ++ parts.map Part.key).Nodup)
    (each : ∀ p ∈ parts, p.HasDistinctKeys) :
    Extends ((parts.flatMap Part.sections).flatMap Section.lines) ms
      (ms ++ parts.map fun p => (p.key, p.item)) := by
  induction parts generalizing ms with
  | nil =>
    rw [List.map_nil, List.append_nil]
    exact extends_nil
  | cons p parts ih =>
    obtain ⟨here, later⟩ := List.forall_mem_cons.1 each
    have one := extends_part (notMem_of_nodup_append distinct) here
    have others := @ih (ms ++ [(p.key, p.item)]) (by rwa [List.map_append, List.append_assoc]) later
    rw [List.append_assoc] at others
    rw [List.flatMap_cons, List.flatMap_append]
    exact one.append others

/-! ## Documents -/

namespace Document

variable {d : Document}

/-- What the lines of a document build up. -/
theorem ofLines?_sections (H : d.IsPlain) :
    ofLines? (d.sections.flatMap Section.lines) = some d.members := by
  have distinct : (d.entries.map (·.1)).Nodup := (List.nodup_append.1 H.keys).1
  have top := foldlM_entries [] opens_nil distinct
  have keys : ((items d.entries).map (·.1) ++ d.parts.map Part.key).Nodup := by
    rw [items, List.map_map]
    exact H.keys
  obtain ⟨last, parts⟩ := extends_parts keys H.parts []
  have whole : (d.sections.flatMap Section.lines).foldlM Draft.add? {} =
      some ⟨d.members, last⟩ := by
    rw [sections, List.flatMap_cons, List.foldlM_append]
    exact (congrArg (Option.bind · _) top).trans parts
  rw [ofLines?, whole, Option.map_some]

/-- **A document is read as it was written.** -/
theorem parse?_render (H : d.IsPlain) : parse? (render d.sections) = some d.members := by
  rw [Toml.parse?_render H.sections, ofLines?_sections H]

end Document

end LeasePool.Toml
