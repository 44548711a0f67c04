import LeasePool.Kubernetes.Server
import LeasePool.Proofs.Lease.Naming
import LeasePool.Proofs.Time.Stamps
import Mathlib.Data.List.Basic

/-!
# Names and selectors identify leases

A name says of which pool a lease is, in which role and, for a member, with which ordinal. A
selector of member leases finds those of its own pool, whatever labels others have put beside the
managed ones. What goes to a server is the text of a selector, and the text says what the selector
is, unless a key or a value has one of the characters in it that hold the text together.
-/

namespace LeasePool

/-! ## Names -/

/-- Member leases of different ordinals have different names. -/
theorem memberLeaseName_injective {pool : String} : (memberLeaseName pool).Injective := by
  intro i j same
  have chars := congrArg String.toList same
  rw [toList_memberLeaseName, toList_memberLeaseName] at chars
  have digits : Text.padded 2 i = Text.padded 2 j :=
    (List.cons.inj (List.append_cancel_left (List.append_cancel_left chars))).2
  calc
    i = Nat.ofDigitChars 10 (Text.padded 2 i) 0 := Text.ofDigitChars_padded.symm
    _ = Nat.ofDigitChars 10 (Text.padded 2 j) 0 := by rw [digits]
    _ = j := Text.ofDigitChars_padded

/-- The name of a member lease says its pool and its ordinal. -/
theorem memberLeaseName_eq_iff {p q : String} {i j : Nat} :
    memberLeaseName p i = memberLeaseName q j ↔ p = q ∧ i = j := by
  constructor
  · intro same
    obtain rfl := eq_of_memberLeaseName_eq same
    exact ⟨rfl, memberLeaseName_injective same⟩
  · rintro ⟨rfl, rfl⟩
    rfl

/-! ## Selectors -/

/-- The labels of a lease of a pool are found beside any others. -/
theorem get?_override_labels {role : Role} {pool k v : String} {foreign : Labels}
    (h : (role.labels pool).get? k = some v) :
    (foreign.override (role.labels pool)).get? k = some v := by
  rw [Table.get?_override, h, Option.some_or]

/-- **What a member scan finds**, whatever labels stand beside the managed ones. -/
theorem selects_memberSelector_override_iff {role : Role} {pool other : String}
    {foreign : Labels} :
    (memberSelector pool).selects (foreign.override (role.labels other)) = true ↔
      pool = other ∧ role = .member := by
  have managed : ∀ k v, (memberSelector pool).get? k = some v →
      ∃ w, (role.labels other).get? k = some w := by
    intro k v selected
    rw [get?_memberSelector] at selected
    rw [Role.get?_labels]
    split at selected
    · rename_i isLeader
      subst isLeader
      exact ⟨role.labelValue, rfl⟩
    · split at selected
      · rename_i isPool
        exact ⟨other, if_pos isPool⟩
      · contradiction
  calc
    (memberSelector pool).selects (foreign.override (role.labels other)) = true
      ↔ (memberSelector pool).selects (role.labels other) = true := by
        rw [Labels.selects_iff, Labels.selects_iff]
        constructor
        · intro H k v selected
          obtain ⟨w, here⟩ := managed k v selected
          have same := (H k v selected).symm.trans (get?_override_labels here)
          rw [here, same]
        · intro H k v selected
          exact get?_override_labels (H k v selected)
    _ ↔ role = .member ∧ other = pool := selects_memberSelector_labels_iff
    _ ↔ pool = other ∧ role = .member := by rw [and_comm, eq_comm]

namespace Labels

variable {s t : Labels}

/-- The keys have neither an equals sign nor a comma in them, and the values have no comma. -/
def IsSpellable (s : Labels) : Prop :=
  ∀ e ∈ s.entries, '=' ∉ e.1.toList ∧ ',' ∉ e.1.toList ∧ ',' ∉ e.2.toList

/-- The text of an entry. -/
def spelled (e : String × String) : List Char := e.1.toList ++ '=' :: e.2.toList

theorem toList_selectorText :
    s.selectorText.toList = [','].intercalate (s.entries.map spelled) := by
  have each : String.toList ∘ (fun e : String × String => e.1 ++ "=" ++ e.2) = spelled := by
    funext e
    simp [spelled]
  rw [selectorText, String.toList_intercalate, List.map_map, each]
  rfl

/-- The entry that a text shows: its key ends at the first equals sign. -/
def entryOf (text : List Char) : String × String :=
  (String.ofList (text.takeWhile (· ≠ '=')), String.ofList ((text.dropWhile (· ≠ '=')).drop 1))

theorem entryOf_spelled {e : String × String} (plain : '=' ∉ e.1.toList) :
    entryOf (spelled e) = e := by
  have key : ∀ c ∈ e.1.toList, (c ≠ '=' : Bool) = true := by
    intro c hc
    have other : c ≠ '=' := fun h => plain (h ▸ hc)
    simpa using other
  rw [entryOf, spelled, List.takeWhile_append_of_pos key, List.dropWhile_append_of_pos key]
  simp

/-- **The entries are read off the text**: no comma is in any of them. -/
theorem entries_eq_map_entryOf (H : s.IsSpellable) (some : s.entries ≠ []) :
    s.entries = (s.selectorText.toList.splitOn ',').map entryOf := by
  have pieces : s.selectorText.toList.splitOn ',' = s.entries.map spelled := by
    rw [toList_selectorText]
    refine List.splitOn_intercalate ',' ?_ (by simpa using some)
    intro text mem
    obtain ⟨e, he, rfl⟩ := List.mem_map.1 mem
    obtain ⟨-, key, value⟩ := H e he
    simp [spelled, key, value]
  rw [pieces, List.map_map]
  calc
    s.entries = s.entries.map id := (List.map_id _).symm
    _ = s.entries.map (entryOf ∘ spelled) :=
      List.map_congr_left fun e he => (entryOf_spelled (H e he).1).symm

/-- Only the selector without entries has an empty text. -/
theorem selectorText_eq_nil_iff : s.selectorText.toList = [] ↔ s.entries = [] := by
  rw [toList_selectorText]
  constructor
  · intro empty
    cases entries : s.entries with
    | nil => rfl
    | cons e es =>
      rw [entries] at empty
      cases es with
      | nil => simp [spelled] at empty
      | cons f es =>
        rw [List.map_cons, List.map_cons, List.intercalate_cons_cons] at empty
        simp [spelled] at empty
  · intro empty
    rw [empty]
    rfl

/-- **A text is that of one selector only.** -/
theorem selectorText_injective (hs : s.IsSpellable) (ht : t.IsSpellable)
    (same : s.selectorText = t.selectorText) : s = t := by
  have chars : s.selectorText.toList = t.selectorText.toList := congrArg String.toList same
  refine Table.ext ?_
  by_cases empty : s.entries = []
  · have empty' : t.entries = [] := by
      rw [← selectorText_eq_nil_iff, ← chars, selectorText_eq_nil_iff, empty]
    rw [empty, empty']
  · have some : t.entries ≠ [] := by
      rwa [ne_eq, ← selectorText_eq_nil_iff, ← chars, selectorText_eq_nil_iff]
    rw [entries_eq_map_entryOf hs empty, entries_eq_map_entryOf ht some, chars]

/-- The selector of the members of a pool can be told from its text, unless the name of the pool
has a comma in it. -/
theorem isSpellable_memberSelector {pool : String} (plain : ',' ∉ pool.toList) :
    (memberSelector pool).IsSpellable := by
  intro e he
  have found : (memberSelector pool).get? e.1 = some e.2 := Table.get?_eq_some_iff.2 he
  rw [get?_memberSelector] at found
  split at found
  · rename_i isLeader
    rw [isLeader, ← Option.some.inj found]
    exact ⟨by decide +kernel, by decide +kernel, by decide +kernel⟩
  · split at found
    · rename_i isPool
      rw [isPool, ← Option.some.inj found]
      exact ⟨by decide +kernel, by decide +kernel, plain⟩
    · contradiction

end Labels

/-! ## What identifies leases -/

/-- What names and selectors say about leases. -/
structure NamingIsFaithful : Prop where
  /-- The name of a member lease says the pool and the ordinal... -/
  member : ∀ p q i j, memberLeaseName p i = memberLeaseName q j ↔ p = q ∧ i = j
  /-- ... that of a leader lease says the pool... -/
  leader : ∀ p q, leaderLeaseName p = leaderLeaseName q ↔ p = q
  /-- ... and no name is that of both. -/
  apart : ∀ p q i, leaderLeaseName p ≠ memberLeaseName q i
  /-- A selector of members finds the leases of the members of its pool, whatever else they are
  labelled with, and no other leases. -/
  selects : ∀ (p q : String) (role : Role) (foreign : Labels),
    (memberSelector p).selects (foreign.override (role.labels q)) = true ↔ p = q ∧ role = .member
  /-- A text is that of one selector only... -/
  text : ∀ s t : Labels, s.IsSpellable → t.IsSpellable →
    (s.selectorText = t.selectorText ↔ s = t)
  /-- ... so a server is told which selector is meant. -/
  request : ∀ (server : ApiServer) (token : Option String) (ns : String) (s t : Labels),
    s.IsSpellable → t.IsSpellable →
      (server.request? token (.listLeases ns s) = server.request? token (.listLeases ns t) ↔ s = t)

/-- **Names and selectors identify leases.** -/
theorem namingIsFaithful : NamingIsFaithful where
  member _ _ _ _ := memberLeaseName_eq_iff
  leader _ _ := ⟨eq_of_leaderLeaseName_eq, congrArg leaderLeaseName⟩
  apart _ _ _ := leaderLeaseName_ne_memberLeaseName
  selects _ _ _ _ := selects_memberSelector_override_iff
  text _ _ hs ht := ⟨Labels.selectorText_injective hs ht, congrArg Labels.selectorText⟩
  request server token ns s t hs ht := by
    constructor
    · intro same
      have queries := congrArg Http.Request.query (Option.some.inj same)
      have texts : s.selectorText = t.selectorText :=
        (Prod.mk.inj (List.cons.inj queries).1).2
      exact Labels.selectorText_injective hs ht texts
    · intro same
      rw [same]

/-- Two labels for a text that one label has, too, if its value has a comma in it. -/
example :
    Labels.selectorText (Table.ofList [("a", "1"), ("b", "2")]) =
      Labels.selectorText (Table.ofList [("a", "1,b=2")]) := by decide +kernel

end LeasePool
