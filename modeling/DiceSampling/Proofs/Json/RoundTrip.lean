/-
# Specifications and samples survive JSON

What is written of a specification or a sample is read as the same specification or
sample.  So is every other text of its JSON form: with the tallies and the two members in
any order, with members of other names anywhere among them, as an array of the two
values, and with blanks between the tokens.
-/

import DiceSampling.Proofs.Json.Writing

namespace DiceSampling

/-- A list is read if all its elements are. -/
theorem mapM_eq_some_map {α β : Type} {read : α → Option β} {f : α → β} {l : List α}
    (h : ∀ a ∈ l, read a = some (f a)) : l.mapM read = some (l.map f) := by
  induction l with
  | nil => rfl
  | cons a l ih =>
      obtain ⟨here, others⟩ := List.forall_mem_cons.mp h
      rw [List.mapM_cons, here, ih others]
      rfl

namespace Json

open JsonLanguage

section Members

/-- What stands between the quotes of a name. -/
def written (name : String) : List Char := name.toList.flatMap escape

/-- The JSON values that hold two values under two names: objects that have these two
members, in any order and among members of other names, and the array of the two values. -/
inductive Holds (first second : String) (a b : Json) : Json → Prop
  | array : Holds first second a b (.array [a, b])
  | object {members others : List (List Char × Json)}
      (order : members.Perm ((written first, a) :: (written second, b) :: others))
      (other : ∀ member ∈ others, ∃ name, unescape member.1 = some name ∧
        name ≠ first.toList ∧ name ≠ second.toList) :
      Holds first second a b (.object members)

variable {first second : String} {a b json : Json}

theorem unescape_written {name : String} (plain : name.toList.all isPlain = true) :
    unescape (written name) = some name.toList := by
  rw [written, flatMap_escape_of_isPlain plain, unescape_of_isPlain plain]

/-- The members of an object with their names read. -/
def named (members : List (List Char × Json)) : List (List Char × Json) :=
  members.map fun member => ((unescape member.1).getD [], member.2)

theorem mapM_unescape {members : List (List Char × Json)}
    (h : ∀ member ∈ members, ∃ name, unescape member.1 = some name) :
    (members.mapM fun (body, value) => (unescape body).map (·, value)) = some (named members) := by
  refine mapM_eq_some_map fun member mem => ?_
  obtain ⟨name, hname⟩ := h member mem
  change (unescape member.1).map (·, member.2) = _
  rw [hname]
  rfl

/-- A name that one member has is looked up whatever the order of the members. -/
theorem member?_of_perm {name : String} {members others : List (List Char × Json)}
    (order : members.Perm ((name.toList, a) :: others))
    (other : ∀ member ∈ others, member.1 ≠ name.toList) : member? name members = some a := by
  have rest : others.filter (fun (written, _) => written = name.toList) = [] := by
    rw [List.filter_eq_nil_iff]
    intro member hmember
    simpa using other member hmember
  have single := order.filter fun (written, _) => written = name.toList
  rw [List.filter_cons_of_pos (by simp), rest, List.perm_singleton] at single
  rw [member?, single]

/-- The two values are found. -/
theorem Holds.pair?_eq (h : Holds first second a b json)
    (plainFirst : first.toList.all isPlain = true) (plainSecond : second.toList.all isPlain = true)
    (distinct : first.toList ≠ second.toList) : json.pair? first second = some (a, b) := by
  cases h with
  | array => rfl
  | object order other =>
      rename_i members others
      have unescaped : ∀ member ∈ members, ∃ name, unescape member.1 = some name := by
        intro member hmember
        rcases List.mem_cons.mp (order.subset hmember) with rfl | hmember
        · exact ⟨_, unescape_written plainFirst⟩
        rcases List.mem_cons.mp hmember with rfl | hmember
        · exact ⟨_, unescape_written plainSecond⟩
        · obtain ⟨name, hname, -⟩ := other member hmember
          exact ⟨name, hname⟩
      have names := order.map fun (member : List Char × Json) =>
        ((unescape member.1).getD [], member.2)
      rw [List.map_cons, List.map_cons, unescape_written plainFirst, unescape_written plainSecond]
        at names
      have otherNames : ∀ member ∈ named others,
          member.1 ≠ first.toList ∧ member.1 ≠ second.toList := by
        rw [named, List.forall_mem_map]
        intro member hmember
        obtain ⟨name, hname, notFirst, notSecond⟩ := other member hmember
        rw [hname]
        exact ⟨notFirst, notSecond⟩
      have foundFirst : member? first (named members) = some a := by
        refine member?_of_perm names ?_
        rintro member (_ | ⟨_, hmember⟩)
        · exact distinct.symm
        · exact (otherNames member hmember).1
      have foundSecond : member? second (named members) = some b := by
        refine member?_of_perm (names.trans (.swap _ _ _)) ?_
        rintro member (_ | ⟨_, hmember⟩)
        · exact distinct
        · exact (otherNames member hmember).2
      rw [pair?, mapM_unescape unescaped]
      change (do return (← member? first (named members), ← member? second (named members))) = _
      rw [foundFirst, foundSecond]
      rfl

/-- An object with nothing but the two members. -/
theorem holds_ofMembers (first second : String) (a b : Json) :
    Holds first second a b (ofMembers [(first, a), (second, b)]) :=
  .object (.refl _) fun _ h => absurd h List.not_mem_nil

end Members

end Json

namespace Spec

open Json

/-- A specification is read from every value that holds its two numbers. -/
theorem ofJson?_of_holds {spec : Spec} {json : Json}
    (h : Holds "count" "sides" (.ofNat spec.count.toNat) (.ofNat spec.sides.toNat) json) :
    ofJson? json = some spec := by
  rw [ofJson?, h.pair?_eq (by decide) (by decide) (by decide)]
  change (word32? (Decimal.digits spec.count.toNat)).bind (fun count =>
    (word32? (Decimal.digits spec.sides.toNat)).bind fun sides => some ⟨count, sides⟩) = some spec
  rw [word32?_digits, word32?_digits]
  rfl

theorem ofJsonText?_of_holds {spec : Spec} {json : Json}
    (h : Holds "count" "sides" (.ofNat spec.count.toNat) (.ofNat spec.sides.toNat) json)
    {text : String} (document : text.toList ∈ json.documents) : ofJsonText? text = some spec := by
  rw [ofJsonText?, read?_of_mem_documents document, Option.bind_some, ofJson?_of_holds h]

theorem render_mem_documents (spec : Spec) :
    spec.toJson.render.toList ∈ spec.toJson.documents := by
  apply Json.render_mem_documents
  apply writable_ofMembers
  intro member hmember
  rcases List.mem_pair.mp hmember with rfl | rfl
  · exact ⟨show "count".toList.all isPlain = true by decide, writable_ofNat _⟩
  · exact ⟨show "sides".toList.all isPlain = true by decide, writable_ofNat _⟩

end Spec

namespace Sample

open Json

/-- The object of some tallies, in the order in which they stand. -/
def tallyObject (entries : List (Int64 × UInt64)) : Json :=
  .ofMembers (entries.map fun (total, tally) => tallyMember total tally)

/-- A sample as JSON with its tallies in some order. -/
def toJsonInOrder (sample : Sample) (entries : List (Int64 × UInt64)) : Json :=
  .ofMembers [("counts", tallyObject entries), ("len", .ofNat sample.len.toNat)]

theorem toJson_eq (sample : Sample) : sample.toJson = sample.toJsonInOrder sample.entries := rfl

variable {sample : Sample} {entries : List (Int64 × UInt64)}

/-- The members of the object are put into the table one after the other. -/
theorem tallies?_tallyObject (entries : List (Int64 × UInt64)) :
    tallies? (tallyObject entries) =
      some ((∅ : Std.ExtTreeMap Int64 UInt64).insertMany entries) := by
  rw [Std.ExtTreeMap.insertMany_list_eq_foldl, tallyObject, ofMembers, tallies?]
  generalize (∅ : Std.ExtTreeMap Int64 UInt64) = table
  induction entries generalizing table with
  | nil => rfl
  | cons entry entries ih =>
      obtain ⟨total, tally⟩ := entry
      have name : int64? ((Decimal.signedText total.toInt).toList.flatMap escape) = some total := by
        rw [flatMap_escape_of_isPlain (all_isPlain_signedText _), int64?_signedText]
      have value : (Json.ofNat tally.toNat).digits?.bind word64? = some tally :=
        word64?_digits tally
      have first : (do
          return table.insert (← int64? ((Decimal.signedText total.toInt).toList.flatMap escape))
            (← (Json.ofNat tally.toNat).digits?.bind word64?)) =
          some (table.insert total tally) := by
        rw [name, value]
        rfl
      rw [List.map_cons, List.map_cons, List.foldlM_cons, List.foldl_cons]
      exact (congrArg (· >>= _) first).trans (ih (table.insert total tally))

/-- Tallies make up the table of a sample in whatever order they are put into one. -/
theorem insertMany_entries (order : entries.Perm sample.entries) :
    (∅ : Std.ExtTreeMap Int64 UInt64).insertMany entries = sample.tallies := by
  have distinct : entries.Pairwise fun a b => ¬compare a.1 b.1 = .eq :=
    (order.pairwise_iff fun {a b} h same => h (Std.OrientedCmp.eq_symm same)).mpr
      Std.ExtTreeMap.distinct_keys_toList
  refine Std.ExtTreeMap.ext_getElem? fun total => ?_
  cases found : sample.tallies[total]? with
  | none =>
      have absent : (entries.map Prod.fst).contains total = false := by
        rw [← Bool.not_eq_true, List.contains_iff_mem, List.mem_map]
        rintro ⟨⟨_, tally⟩, mem, rfl⟩
        have present := Std.ExtTreeMap.mem_toList_iff_getElem?_eq_some.mp (order.subset mem)
        rw [found] at present
        cases present
      rw [Std.ExtTreeMap.getElem?_insertMany_list_of_contains_eq_false absent,
        Std.ExtTreeMap.getElem?_empty]
  | some tally =>
      have mem : (total, tally) ∈ entries :=
        order.symm.subset (Std.ExtTreeMap.mem_toList_iff_getElem?_eq_some.mpr found)
      exact Std.ExtTreeMap.getElem?_insertMany_list_of_mem Std.ReflCmp.compare_self distinct mem

/-- A sample is read from every value that holds its tallies, in any order, and its length. -/
theorem ofJson?_of_holds {json : Json} (order : entries.Perm sample.entries)
    (h : Holds "counts" "len" (tallyObject entries) (.ofNat sample.len.toNat) json) :
    ofJson? json = some sample := by
  rw [ofJson?, h.pair?_eq (by decide) (by decide) (by decide)]
  change (tallies? (tallyObject entries)).bind (fun tallies =>
    (word64? (Decimal.digits sample.len.toNat)).bind fun len => some ⟨tallies, len⟩) = some sample
  rw [tallies?_tallyObject, insertMany_entries order, word64?_digits]
  rfl

theorem ofJsonText?_of_holds {json : Json} (order : entries.Perm sample.entries)
    (h : Holds "counts" "len" (tallyObject entries) (.ofNat sample.len.toNat) json)
    {text : String} (document : text.toList ∈ json.documents) : ofJsonText? text = some sample := by
  rw [ofJsonText?, read?_of_mem_documents document, Option.bind_some, ofJson?_of_holds order h]

theorem writable_tallyObject (entries : List (Int64 × UInt64)) :
    (tallyObject entries).Writable := by
  apply writable_ofMembers
  rw [List.forall_mem_map]
  intro entry _
  exact ⟨all_isPlain_signedText _, writable_ofNat _⟩

theorem render_mem_documents (sample : Sample) (entries : List (Int64 × UInt64)) :
    (sample.toJsonInOrder entries).render.toList ∈ (sample.toJsonInOrder entries).documents := by
  apply Json.render_mem_documents
  apply writable_ofMembers
  intro member hmember
  rcases List.mem_pair.mp hmember with rfl | rfl
  · exact ⟨show "counts".toList.all isPlain = true by decide, writable_tallyObject entries⟩
  · exact ⟨show "len".toList.all isPlain = true by decide, writable_ofNat _⟩

end Sample

/-- What is written of a sample is read as the sample, whatever the order in which its tallies
are written, and so is every other document of a value that holds its tallies and its length;
the same holds for a specification and its two numbers. -/
theorem json_round_trip :
    (∀ sample : Sample,
      Sample.ofJsonText? sample.toJson.render = some sample ∧
      ∀ entries, entries.Perm sample.entries →
        Sample.ofJsonText? (sample.toJsonInOrder entries).render = some sample ∧
        ∀ json,
          Json.Holds "counts" "len" (Sample.tallyObject entries) (.ofNat sample.len.toNat) json →
          ∀ text : String, text.toList ∈ json.documents →
            Sample.ofJsonText? text = some sample) ∧
    ∀ spec : Spec,
      Spec.ofJsonText? spec.toJson.render = some spec ∧
      ∀ json,
        Json.Holds "count" "sides" (.ofNat spec.count.toNat) (.ofNat spec.sides.toNat) json →
        ∀ text : String, text.toList ∈ json.documents → Spec.ofJsonText? text = some spec := by
  constructor
  · intro sample
    have inOrder : ∀ entries, entries.Perm sample.entries →
        Sample.ofJsonText? (sample.toJsonInOrder entries).render = some sample := by
      intro entries order
      exact Sample.ofJsonText?_of_holds order (Json.holds_ofMembers _ _ _ _)
        (sample.render_mem_documents entries)
    refine ⟨?_, fun entries order => ⟨inOrder entries order, fun json h text document => ?_⟩⟩
    · rw [sample.toJson_eq]
      exact inOrder _ (.refl _)
    · exact Sample.ofJsonText?_of_holds order h document
  · intro spec
    refine ⟨?_, fun json h text document => Spec.ofJsonText?_of_holds h document⟩
    exact Spec.ofJsonText?_of_holds (Json.holds_ofMembers _ _ _ _) spec.render_mem_documents

/-- A sample whose two members stand in the other order with a member of another name
between them, and a specification that is written as an array. -/
theorem json_round_trip_of_other_forms :
    Sample.ofJsonText?
        "\x7b\"len\":9,\"note\":null,\"counts\":\x7b\"7\":1,\"-9223372036854775808\":0\x7d\x7d" =
      some ⟨.ofList [(Int64.minValue, (0 : UInt64)), (7, 1)], 9⟩ ∧
    Spec.ofJsonText? "[2,6]" = some ⟨2, 6⟩ := by
  constructor
  · have order : List.Perm [(7, 1), (Int64.minValue, 0)]
        (Sample.mk (.ofList [(Int64.minValue, (0 : UInt64)), (7, 1)]) 9).entries := by decide
    have other : ∀ member ∈ [("note".toList, Json.null)], ∃ name,
        Json.unescape member.1 = some name ∧ name ≠ "counts".toList ∧ name ≠ "len".toList :=
      List.forall_mem_singleton.mpr ⟨"note".toList, by decide, by decide, by decide⟩
    have swapped : List.Perm _ (_ :: ("len".toList, Json.ofNat 9) :: _) :=
      @List.perm_middle _ ("counts".toList, Sample.tallyObject [(7, 1), (Int64.minValue, 0)])
        [("len".toList, .ofNat 9), ("note".toList, .null)] []
    refine ((json_round_trip.1 _).2 _ order).2 _ (.object swapped other) _
      (Json.render_mem_documents (Json.writable_object_iff.mpr ?_))
    simp only [List.cons_append, List.nil_append, List.forall_mem_cons]
    exact ⟨⟨Json.mem_body_of_isPlain (by decide), Json.writable_ofNat 9⟩,
      ⟨Json.mem_body_of_isPlain (by decide), Json.writable_null⟩,
      ⟨Json.mem_body_of_isPlain (by decide), Sample.writable_tallyObject _⟩,
      List.forall_mem_nil _⟩
  · have written : Json.Writable (.array [.ofNat 2, .ofNat 6]) := by
      refine Json.writable_array_iff.mpr ?_
      simp only [List.forall_mem_cons]
      exact ⟨Json.writable_ofNat 2, Json.writable_ofNat 6, List.forall_mem_nil _⟩
    exact (json_round_trip.2 ⟨2, 6⟩).2 _ .array _ (Json.render_mem_documents written)

end DiceSampling
