/-
Module: LoxLang.Proofs.Scope.Table
Purpose: References are told apart by where they stand.  No two references of a program that was
  read from a source stand at one place, whatever errors the source has.  So a table of distances
  that goes by places has the entries of one that goes by the references themselves, and no entry
  of it is ever replaced.
Main exports: Program.references_placed, Referrer, Program.referrers, distanceTable,
  distanceTable_entries, distanceTable_lookup, Program.references_identified
-/
import LoxLang.Proofs.Parser.Supply
import LoxLang.Proofs.Scope.Composition
import LoxLang.Proofs.Scope.Tidy
import LoxLang.Proofs.Token.Place
import Mathlib.Data.List.AList

namespace LoxLang

/-! ### Places of references -/

/-- No two of the names that the tokens of a source can be referred to by stand at one place. -/
theorem scan_referents_nodup (source : String) :
    (((scan source).tokens.filterMap Token.referent?).map Ident.position).Nodup := by
  refine scan_picked_nodup (fun token name isName => ?_) (fun _ => rfl) source
  unfold Token.referent? at isName
  split at isName <;> cases isName <;> rfl

/-- No two references of a program that was read from a source stand at one place. -/
theorem Program.references_placed {room : Nat} {limit : ArgumentLimit} {source : String}
    {program : Program.Plain}
    (read : (parseWithin room limit (scan source).tokens).program = .ok program) :
    (program.references.map fun reference => reference.name.position).Nodup := by
  have drawn := references_subperm (scan_proper source).1 read
  have places := Multiset.map_le_map (f := Ident.position) (Multiset.coe_le.2 drawn)
  rw [Multiset.map_coe, Multiset.map_coe, List.map_map] at places
  exact Multiset.coe_nodup.1
    (Multiset.nodup_of_le places (Multiset.coe_nodup.2 (scan_referents_nodup source)))

/-! ### References one by one -/

/-- A reference of a program whose names are bound, and which of its references it is. -/
structure Referrer where
  number : Nat
  reference : Reference Distance

/-- The references of a program, numbered from the first on. -/
def Program.referrers (program : Program Distance) : List Referrer :=
  program.references.zipIdx.map fun numbered => ⟨numbered.2, numbered.1⟩

/-- Referrers are the references of a program, no number being given twice. -/
theorem Program.referrers_numbered (program : Program Distance) :
    program.referrers.map Referrer.reference = program.references ∧
      (program.referrers.map Referrer.number).Nodup := by
  constructor
  · rw [referrers, List.map_map]
    exact List.zipIdx_map_fst 0 program.references
  · rw [referrers, List.map_map]
    exact List.zipIdx_map_snd 0 program.references ▸ List.nodup_range'

namespace Referrer

/-- Where the name or keyword of a reference stands. -/
def position (referrer : Referrer) : Position :=
  referrer.reference.name.position

variable {κ ι : Type} {key : Referrer → κ} {referrer : Referrer}
  {referrers : List Referrer}

/-- What is entered in a table for a reference: its distance, if it is bound in a local scope. -/
def entry (key : Referrer → κ) (referrer : Referrer) : Option (Σ _ : κ, Nat) :=
  referrer.reference.binding.map fun distance => ⟨key referrer, distance⟩

theorem entry_none (unbound : referrer.reference.binding = none) (key : Referrer → κ) :
    referrer.entry key = none := by
  rw [entry, unbound, Option.map_none]

theorem entry_some {distance : Nat} (bound : referrer.reference.binding = some distance)
    (key : Referrer → κ) : referrer.entry key = some ⟨key referrer, distance⟩ := by
  rw [entry, bound, Option.map_some]

/-- What is entered for one reference after the other. -/
def entries (key : Referrer → κ) (referrers : List Referrer) : List (Σ _ : κ, Nat) :=
  referrers.filterMap (entry key)

theorem keys_entries (key : Referrer → κ) (referrers : List Referrer) :
    (entries key referrers).keys.Sublist (referrers.map key) := by
  induction referrers with
  | nil => exact .refl _
  | cons referrer rest ih =>
      cases found : referrer.reference.binding with
      | none =>
          rw [entries, List.filterMap_cons_none (entry_none found key)]
          exact ih.cons _
      | some distance =>
          rw [entries, List.filterMap_cons_some (entry_some found key)]
          exact ih.cons_cons _

/-- If no two references have one key, no key is given two entries. -/
theorem entries_nodupKeys (apart : (referrers.map key).Nodup) :
    (entries key referrers).NodupKeys :=
  apart.sublist (keys_entries key referrers)

/-- Entries under one key and under another are made side by side. -/
theorem entries_paired (key : Referrer → κ) (other : Referrer → ι)
    (referrers : List Referrer) :
    List.Forall₂ (fun made paired => ∃ referrer ∈ referrers,
        referrer.entry key = some made ∧ referrer.entry other = some paired)
      (entries key referrers) (entries other referrers) := by
  induction referrers with
  | nil => exact .nil
  | cons referrer rest ih =>
      have later : List.Forall₂ (fun made paired => ∃ found ∈ referrer :: rest,
          found.entry key = some made ∧ found.entry other = some paired) _ _ :=
        ih.imp fun _ _ ⟨found, member, made⟩ => ⟨found, .tail referrer member, made⟩
      cases found : referrer.reference.binding with
      | none =>
          rw [entries, entries, List.filterMap_cons_none (entry_none found key),
            List.filterMap_cons_none (entry_none found other)]
          exact later
      | some distance =>
          have isEntry := entry_some found key
          have isPaired := entry_some found other
          rw [entries, entries, List.filterMap_cons_some isEntry, List.filterMap_cons_some isPaired]
          exact .cons ⟨referrer, List.mem_cons_self, isEntry, isPaired⟩ later

/-- There are as many entries as references that are bound in a local scope. -/
theorem length_entries (key : Referrer → κ) (program : Program Distance) :
    (entries key program.referrers).length = program.localReferences.length := by
  rw [entries, Program.localReferences, ← program.referrers_numbered.1, List.filterMap_map,
    List.length_filterMap_eq_countP, List.length_filterMap_eq_countP]
  simp only [entry, Function.comp_apply, Option.isSome_map]

end Referrer

/-! ### Tables of distances -/

section Tables

open Referrer (entries entry_some entries_nodupKeys)

variable {κ : Type} [DecidableEq κ] {key : Referrer → κ} {referrers : List Referrer}

/-- The distances of references in a table that goes by `key`.  What is entered under a key that
has an entry replaces it. -/
def distanceTable (key : Referrer → κ) (referrers : List Referrer) : AList fun _ : κ => Nat :=
  (entries key referrers).foldl (fun table made => table.insert made.1 made.2) ∅

/-- Entries under keys that have none yet are all kept, the last of them in front. -/
theorem entries_foldl_insert {made : List (Σ _ : κ, Nat)} (apart : made.NodupKeys)
    (table : AList fun _ : κ => Nat) (fresh : ∀ entry ∈ made, entry.1 ∉ table) :
    (made.foldl (fun table entry => table.insert entry.1 entry.2) table).entries =
      made.reverse ++ table.entries := by
  induction made generalizing table with
  | nil => rfl
  | cons entry rest ih =>
      obtain ⟨others, apartRest⟩ := List.nodupKeys_cons.1 apart
      have isNew : entry.1 ∉ table := fresh entry List.mem_cons_self
      have freshRest : ∀ later ∈ rest, later.1 ∉ table.insert entry.1 entry.2 := by
        intro later member isKey
        rcases (AList.mem_insert table).1 isKey with same | older
        · exact others (same ▸ List.mem_keys_of_mem member)
        · exact fresh later (List.mem_cons_of_mem _ member) older
      rw [List.foldl_cons, ih apartRest _ freshRest, AList.insert_of_notMem isNew,
        List.reverse_cons, List.append_assoc]
      rfl

/-- If no two references have one key, no entry is replaced. -/
theorem distanceTable_entries (apart : (referrers.map key).Nodup) :
    (distanceTable key referrers).entries = (entries key referrers).reverse := by
  rw [distanceTable, entries_foldl_insert (entries_nodupKeys apart) ∅
    fun made _ => AList.notMem_empty made.1]
  exact List.append_nil _

/-- If no two references have one key, the table says of each what binding found. -/
theorem distanceTable_lookup (apart : (referrers.map key).Nodup) {referrer : Referrer}
    (member : referrer ∈ referrers) :
    (distanceTable key referrers).lookup (key referrer) = referrer.reference.binding := by
  ext distance
  rw [← Option.mem_def, AList.mem_lookup_iff, distanceTable_entries apart, List.mem_reverse,
    entries, List.mem_filterMap]
  constructor
  · rintro ⟨other, isOther, isEntry⟩
    obtain ⟨found, isFound, sameEntry⟩ := Option.map_eq_some_iff.1 isEntry
    obtain ⟨sameKey, rfl⟩ := Sigma.mk.inj sameEntry
    rw [← isFound, List.inj_on_of_nodup_map apart isOther member sameKey]
  · intro isFound
    exact ⟨referrer, member, entry_some isFound key⟩

end Tables

/-! ### References by place -/

/-- References are identified by their tokens.  Each reference of a program that was read from a
source is made from a token of its own and no two stand at one place, whatever errors the source
has.  In whatever order they are looked at, none of them is given two distances, a table that goes
by places has the entries of one that goes by the references themselves, and both say of each
reference what binding found. -/
theorem Program.references_identified {room : Nat} {limit : ArgumentLimit} {source : String}
    {program : Program.Plain}
    (read : (parseWithin room limit (scan source).tokens).program = .ok program) :
    (program.references.map Reference.name).Subperm
        ((scan source).tokens.filterMap Token.referent?) ∧
      (program.references.map fun reference => reference.name.position).Nodup ∧
      ∀ visited : List Referrer, visited.Perm (bind program).program.referrers →
        (Referrer.entries Referrer.position visited).NodupKeys ∧
        List.Forall₂ (fun entry paired => ∃ referrer ∈ visited,
            referrer.entry Referrer.position = some entry ∧
              referrer.entry Referrer.number = some paired)
          (distanceTable Referrer.position visited).entries
          (distanceTable Referrer.number visited).entries ∧
        (distanceTable Referrer.position visited).entries.length =
          (bind program).program.localReferences.length ∧
        ∀ referrer ∈ (bind program).program.referrers,
          (distanceTable Referrer.position visited).lookup referrer.position =
              referrer.reference.binding ∧
            (distanceTable Referrer.number visited).lookup referrer.number =
              referrer.reference.binding := by
  have placed := references_placed read
  refine ⟨references_subperm (scan_proper source).1 read, placed, fun visited isOrder => ?_⟩
  obtain ⟨isReferences, isNumbered⟩ := (bind program).program.referrers_numbered
  have sameNodes : SameNodes (bind program).program.references program.references :=
    Stmt.bindAll_nodes program _
  have samePlaces : (bind program).program.referrers.map Referrer.position =
      program.references.map fun reference => reference.name.position := by
    have places := congrArg (List.map fun node : ReferenceKind × Ident => node.2.position) sameNodes
    rw [List.map_map, List.map_map, ← isReferences, List.map_map] at places
    exact places
  have byPlace : (visited.map Referrer.position).Nodup :=
    (isOrder.map _).nodup_iff.2 (samePlaces ▸ placed)
  have byNumber : (visited.map Referrer.number).Nodup := (isOrder.map _).nodup_iff.2 isNumbered
  refine ⟨Referrer.entries_nodupKeys byPlace, ?_, ?_, fun referrer member => ?_⟩
  · rw [distanceTable_entries byPlace, distanceTable_entries byNumber]
    exact List.forall₂_reverse_iff.2 (Referrer.entries_paired _ _ visited)
  · rw [distanceTable_entries byPlace, List.length_reverse]
    exact (isOrder.filterMap _).length_eq.trans (Referrer.length_entries _ _)
  · have isVisited := isOrder.mem_iff.2 member
    exact ⟨distanceTable_lookup byPlace isVisited, distanceTable_lookup byNumber isVisited⟩

/-- A source with an assignment to what is no target and a statement that does not end, a loop
whose increment is read before its body, and every kind of reference. -/
def misspeltSource : String :=
  "{ for (var a; b; a = c) a; nil = d; print e f; } class G < H { m() { this.x = super.m; } }"

/-- What is left of it. -/
def misspeltProgram : Program.Plain :=
  [.block
      [.block
          [.declare ⟨"a", ⟨1, 12⟩⟩ none,
            .loop (.read ⟨"b", ⟨1, 15⟩⟩ ())
              (.block
                [.expression (.read ⟨"a", ⟨1, 25⟩⟩ ()),
                  .expression (.assign ⟨"a", ⟨1, 18⟩⟩ () (.read ⟨"c", ⟨1, 22⟩⟩ ()))])],
        .expression (.literal .nil)],
    .classDecl ⟨"G", ⟨1, 56⟩⟩ (some (⟨"H", ⟨1, 60⟩⟩, ()))
      [.mk ⟨"m", ⟨1, 64⟩⟩ []
        [.expression (.set (.receiver ⟨1, 70⟩ ()) ⟨"x", ⟨1, 75⟩⟩
          (.superMethod ⟨1, 79⟩ () ⟨"m", ⟨1, 85⟩⟩))]]]

theorem misspelt_read :
    Program.parseWithin 20 (.count 2) (scan misspeltSource).tokens =
      { program := .ok misspeltProgram
        errors := #[⟨.invalidAssignmentTarget, ⟨.equal, "=", none, ⟨1, 32⟩⟩⟩,
          ⟨.expected (.mark ";" "after value"), ⟨.identifier, "f", none, ⟨1, 45⟩⟩⟩] } := by
  with_unfolding_all rfl

theorem Program.references_identified_sample :
    (misspeltProgram.references.map fun reference => reference.name.position).Nodup ∧
      (parseWithin 20 (.count 2) (scan misspeltSource).tokens).errors.size = 2 ∧
      let table := distanceTable Referrer.position (bind misspeltProgram).program.referrers
      table.entries.length = 4 ∧ table.lookup ⟨1, 15⟩ = none ∧ table.lookup ⟨1, 18⟩ = some 1 ∧
        table.lookup ⟨1, 79⟩ = some 2 := by
  have errors := congrArg (fun parse : Parse => parse.errors.size) misspelt_read
  obtain ⟨-, placed, tables⟩ := references_identified (congrArg Parse.program misspelt_read)
  obtain ⟨-, -, size, found⟩ := tables _ (.refl _)
  have global := found ⟨0, ⟨.read, ⟨"b", ⟨1, 15⟩⟩, none⟩⟩ (List.mem_of_getElem? (i := 0) rfl)
  have increment :=
    found ⟨2, ⟨.write, ⟨"a", ⟨1, 18⟩⟩, some 1⟩⟩ (List.mem_of_getElem? (i := 2) rfl)
  have keyword :=
    found ⟨6, ⟨.superMethod, ⟨"super", ⟨1, 79⟩⟩, some 2⟩⟩ (List.mem_of_getElem? (i := 6) rfl)
  exact ⟨placed, errors, size, global.1, increment.1, keyword.1⟩

end LoxLang
