import LeasePool.Proofs.Toml.Lines

/-!
# Documents are built up at their ends

A table that is written after others is added to the end of the document, or of the table that the
keys of its header lead to, and its values are added to its own end. So the place that is changed by
a line is always the last one, at each depth, and nothing before it is touched.

## Main definitions

* `Toml.Step`, `Toml.plug`: the way to the table at the end of a document.

## Main statements

* `Toml.alter?_plug`: what changes the table at the end leaves the rest as it is.
* `Toml.foldlM_entries`: the values of a table.
* `Toml.foldlM_table`, `Toml.foldlM_nested`: a table more, beside others or alone in a new one.
-/

namespace LeasePool.Toml

/-! ## Members -/

namespace Members

variable {ms : Members} {k l : String} {x : Item}

theorem get?_eq_none (fresh : k ∉ ms.map (·.1)) : ms.get? k = none := by
  rw [get?, Option.map_eq_none_iff, List.find?_eq_none]
  rintro ⟨l, x⟩ hm same
  exact fresh (List.mem_map.2 ⟨_, hm, by simpa using same⟩)

/-- The last member is found if no other one has its key. -/
theorem get?_append (fresh : k ∉ ms.map (·.1)) : (ms ++ [(k, x)]).get? k = some x := by
  have before : ms.find? (fun m => m.1 = k) = none := by
    have nothing := get?_eq_none fresh
    rwa [get?, Option.map_eq_none_iff] at nothing
  rw [get?, List.find?_append, before]
  simp

/-- The last member is replaced if no other one has its key. -/
theorem replace_append {y : Item} (fresh : k ∉ ms.map (·.1)) :
    (ms ++ [(k, x)]).replace k y = ms ++ [(k, y)] := by
  have before : ms.map (fun m => if m.1 = k then (k, y) else m) = ms := by
    refine (List.map_congr_left fun m hm => if_neg ?_).trans (List.map_id _)
    rintro rfl
    exact fresh (List.mem_map_of_mem hm)
  rw [replace, List.map_append, before]
  simp

end Members

/-! ## The table at the end -/

/-- A step on the way to the table at the end of a document. -/
structure Step where
  /-- The members before the next table. -/
  before : Members
  key : String
  /-- How that table came to be. -/
  origin : Origin

/-- The step leads to a table that lines may add to. -/
structure Step.IsOpen (s : Step) : Prop where
  fresh : s.key ∉ s.before.map (·.1)
  opens : s.origin ≠ .braces

/-- Tables with a header can be added to... -/
theorem Step.isOpen_header {ms : Members} {k : String} (fresh : k ∉ ms.map (·.1)) :
    IsOpen ⟨ms, k, .header⟩ where
  fresh := fresh
  opens := by simp

/-- ... and so can those that only the headers of others mention. -/
theorem Step.isOpen_implied {ms : Members} {k : String} (fresh : k ∉ ms.map (·.1)) :
    IsOpen ⟨ms, k, .implied⟩ where
  fresh := fresh
  opens := by simp

/-- There is no step to the top of a document. -/
theorem opens_nil : ∀ s ∈ ([] : List Step), s.IsOpen := List.forall_mem_nil _

/-- The document with a table at the end of a way. -/
def plug : List Step → Members → Members
  | [], inner => inner
  | s :: trail, inner => s.before ++ [(s.key, .table s.origin (plug trail inner))]

/-- The keys on the way. -/
def keys (trail : List Step) : List String := trail.map Step.key

variable {trail : List Step} {inner : Members} {path : List String} {origin : Origin}
  {es : List (String × Scalar)} {k last : String} {current : List String}

/-- **What changes the table at the end** leaves the rest as it is. -/
theorem alter?_plug {change : Origin → Members → Option Members} (opens : ∀ s ∈ trail, s.IsOpen) :
    (plug trail inner).alter? false change (keys trail ++ path) origin =
      (inner.alter? false change path ((trail.map Step.origin).getLastD origin)).map
        (plug trail) := by
  induction trail generalizing origin with
  | nil =>
    have same : plug [] = id := rfl
    rw [same, Option.map_id]
    rfl
  | cons s trail ih =>
    obtain ⟨here, later⟩ := List.forall_mem_cons.1 opens
    have next := @ih s.origin later
    rw [keys, List.map_cons, List.cons_append, ← keys, plug, Members.alter?,
      Members.get?_append here.fresh]
    simp only [here.opens, Bool.false_eq_true, false_and, or_self, if_false, next,
      Option.bind_eq_bind, Option.pure_def]
    rw [List.map_cons, List.getLastD_cons]
    cases inner.alter? false change path ((trail.map Step.origin).getLastD s.origin) with
    | none => rfl
    | some found => simp [plug, Members.replace_append here.fresh]

/-- The same, where the table itself is changed. -/
theorem alter?_plug_self {change : Origin → Members → Option Members}
    (opens : ∀ s ∈ trail, s.IsOpen) :
    (plug trail inner).alter? false change (keys trail) origin =
      (change ((trail.map Step.origin).getLastD origin) inner).map (plug trail) := by
  have whole : (plug trail inner).alter? false change (keys trail ++ []) origin = _ :=
    alter?_plug opens
  rw [List.append_nil] at whole
  exact whole

/-- What the values of a table are read as. -/
def items (es : List (String × Scalar)) : Members := es.map fun e => (e.1, e.2.item)

/-- A value is added to the end of the table. -/
theorem add?_entry {e : String × Scalar} (opens : ∀ s ∈ trail, s.IsOpen)
    (fresh : e.1 ∉ inner.map (·.1)) :
    Draft.add? ⟨plug trail inner, keys trail⟩ (entryLine e) =
      some ⟨plug trail (inner ++ items [e]), keys trail⟩ := by
  rw [entryLine, Draft.add?, alter?_plug_self opens]
  simp [Members.alter?, Members.insert?, Members.add?, Members.get?_eq_none fresh, items]

/-- A key that stands among distinct ones after some members is none of theirs. -/
theorem notMem_of_nodup_append {ks ls : List String} {k : String}
    (distinct : (ks ++ k :: ls).Nodup) : k ∉ ks := by
  intro found
  rw [List.nodup_append] at distinct
  exact distinct.2.2 _ found _ List.mem_cons_self rfl

/-- **The values of a table** are added to its end. -/
theorem foldlM_entries (inner : Members) (opens : ∀ s ∈ trail, s.IsOpen)
    (distinct : (inner.map (·.1) ++ es.map (·.1)).Nodup) :
    (es.map entryLine).foldlM Draft.add? ⟨plug trail inner, keys trail⟩ =
      some ⟨plug trail (inner ++ items es), keys trail⟩ := by
  induction es generalizing inner with
  | nil => simp [items]
  | cons e es ih =>
    have fresh : e.1 ∉ inner.map (·.1) := notMem_of_nodup_append distinct
    have later : ((inner ++ items [e]).map (·.1) ++ es.map (·.1)).Nodup := by
      rw [List.map_append, List.append_assoc]
      exact distinct
    have more := ih _ later
    rw [List.append_assoc] at more
    rw [List.map_cons, List.foldlM_cons, add?_entry opens fresh]
    exact more

/-! ## Tables -/

/-- A table with a header and these values. -/
def tableOf (es : List (String × Scalar)) : Item := .table .header (items es)

/-- One step further on the way. -/
theorem plug_concat {s : Step} {ms : Members} :
    plug (trail ++ [s]) ms = plug trail (s.before ++ [(s.key, .table s.origin ms)]) := by
  induction trail with
  | nil => rfl
  | cons t trail ih => rw [List.cons_append, plug, ih, plug]

theorem keys_concat {s : Step} : keys (trail ++ [s]) = keys trail ++ [s.key] := List.map_append

/-- A header begins a table at the end of another one. -/
theorem add?_header (opens : ∀ s ∈ trail, s.IsOpen) (fresh : last ∉ inner.map (·.1)) :
    Draft.add? ⟨plug trail inner, current⟩ (.header ⟨keys trail, last⟩) =
      some ⟨plug trail (inner ++ [(last, .table .header [])]), keys trail ++ [last]⟩ := by
  rw [Draft.add?, alter?_plug_self opens]
  simp [Members.get?_eq_none fresh, DottedKey.path]

/-- A header begins a table in a new one, at the end of another one. -/
theorem add?_header_nested (opens : ∀ s ∈ trail, s.IsOpen) (fresh : k ∉ inner.map (·.1)) :
    Draft.add? ⟨plug trail inner, current⟩ (.header ⟨keys trail ++ [k], last⟩) =
      some ⟨plug trail (inner ++ [(k, .table .implied [(last, .table .header [])])]),
        keys trail ++ [k, last]⟩ := by
  have empty : Members.get? [] last = none := rfl
  rw [Draft.add?, alter?_plug opens]
  simp [Members.alter?, Members.get?_eq_none fresh, DottedKey.path, empty]

/-- The values of a table of which the header has been read. -/
theorem foldlM_after_header {s : Step} (opens : ∀ s ∈ trail, s.IsOpen) (here : s.IsOpen)
    (distinct : (es.map (·.1)).Nodup) :
    (es.map entryLine).foldlM Draft.add?
        ⟨plug trail (s.before ++ [(s.key, .table s.origin [])]), keys trail ++ [s.key]⟩ =
      some ⟨plug trail (s.before ++ [(s.key, .table s.origin (items es))]),
        keys trail ++ [s.key]⟩ := by
  have all : ∀ t ∈ trail ++ [s], t.IsOpen := by
    simpa [or_imp, forall_and] using ⟨opens, here⟩
  have entries := foldlM_entries [] all distinct
  rwa [plug_concat, plug_concat, keys_concat, List.nil_append] at entries

/-- **A table more** at the end of another one. -/
theorem foldlM_table (opens : ∀ s ∈ trail, s.IsOpen) (fresh : last ∉ inner.map (·.1))
    (distinct : (es.map (·.1)).Nodup) :
    (Section.lines ⟨keys trail ++ [last], es⟩).foldlM Draft.add? ⟨plug trail inner, current⟩ =
      some ⟨plug trail (inner ++ [(last, tableOf es)]), keys trail ++ [last]⟩ := by
  have header : headerLines (keys trail ++ [last]) = [.header ⟨keys trail, last⟩] := by
    simp [headerLines]
  have entries := foldlM_after_header opens (Step.isOpen_header fresh) distinct
  rw [Section.lines, header, List.singleton_append, List.foldlM_cons, add?_header opens fresh]
  exact entries

/-- **A table more**, alone in a new one at the end of another one. -/
theorem foldlM_nested (opens : ∀ s ∈ trail, s.IsOpen) (fresh : k ∉ inner.map (·.1))
    (distinct : (es.map (·.1)).Nodup) :
    (Section.lines ⟨keys trail ++ [k, last], es⟩).foldlM Draft.add? ⟨plug trail inner, current⟩ =
      some ⟨plug trail (inner ++ [(k, .table .implied [(last, tableOf es)])]),
        keys trail ++ [k, last]⟩ := by
  have header : headerLines (keys trail ++ [k, last]) = [.header ⟨keys trail ++ [k], last⟩] := by
    simp [headerLines, List.dropLast_append_of_ne_nil]
  have all : ∀ s ∈ trail ++ [⟨inner, k, .implied⟩], s.IsOpen := by
    simpa [or_imp, forall_and] using ⟨opens, Step.isOpen_implied fresh⟩
  have here : Step.IsOpen ⟨[], last, .header⟩ := Step.isOpen_header List.not_mem_nil
  have entries := foldlM_after_header all here distinct
  rw [plug_concat, plug_concat, keys_concat, List.append_assoc] at entries
  rw [Section.lines, header, List.singleton_append, List.foldlM_cons,
    add?_header_nested opens fresh]
  exact entries

end LeasePool.Toml
