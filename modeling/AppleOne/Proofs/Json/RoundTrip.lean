import AppleOne.Json.Decode
import Mathlib.Tactic.Common

/-!
# Decoding what was encoded

A document reaches a decoder either as it was put together or in canonical form, in which
the members of every object are sorted. A decoder of a record has to find its fields in
both. A record whose document gives every field once is written by the members of its
fields, one after the other, so that it is enough to look at one field at a time.

## Main definitions

* `Json.Form`: the two forms of a document.
* `Json.Decodes`: a document that is decoded to a value in both forms.
* `Json.Written`: a record that is written by some members.

## Main results

* `Json.canonical_array`, `Json.lookup_canonicalMembers`: what is in canonical forms.
* `Json.decodes_list`: lists of documents.
* `Json.Written.required`, `Json.Written.seq`, `Json.decodes_object`: records.
-/

namespace AppleOne.Json

/-! ## Canonical forms -/

theorem canonicalItems_eq (done items : List Json) :
    canonicalItems done items = done.reverse ++ items.map canonical := by
  induction items generalizing done with
  | nil => simp [canonicalItems]
  | cons item rest ih => simp [canonicalItems, ih]

@[simp] theorem canonical_array (items : List Json) :
    (Json.array items).canonical = .array (items.map canonical) := by
  simp [canonical, canonicalItems_eq]

variable {key : String} {value : Json} {members : List (String × Json)}

/-- Inserting a new key adds it to the keys. -/
theorem keys_insertMember_perm (h : key ∉ members.map Prod.fst) :
    ((insertMember key value members).map Prod.fst).Perm (key :: members.map Prod.fst) := by
  induction members with
  | nil => exact List.Perm.refl _
  | cons member rest ih =>
    obtain ⟨other, held⟩ := member
    simp only [List.map_cons, List.mem_cons, not_or] at h
    unfold insertMember
    split_ifs with hlt
    · exact List.Perm.refl _
    · exact absurd ‹key = other› h.1
    · exact (List.Perm.cons other (ih h.2)).trans (List.Perm.swap key other _)

/-- A new key is found with the value with which it was inserted. -/
theorem lookup_insertMember (h : key ∉ members.map Prod.fst) (wanted : String) :
    (insertMember key value members).lookup wanted =
      ((key, value) :: members).lookup wanted := by
  induction members with
  | nil => rfl
  | cons member rest ih =>
    obtain ⟨other, held⟩ := member
    simp only [List.map_cons, List.mem_cons, not_or] at h
    unfold insertMember
    split_ifs with hlt
    · rfl
    · exact absurd ‹key = other› h.1
    · rw [List.lookup_cons, ih h.2, List.lookup_cons, List.lookup_cons, List.lookup_cons]
      cases hother : wanted == other with
      | false => rfl
      | true =>
        -- the other key is wanted, and the new one is not the same
        have hkey : (wanted == key) = false := by
          rw [eq_of_beq hother]
          simpa using Ne.symm h.1
        rw [hkey]

/-- A member is found by its key if no other member has that key. -/
theorem lookup_of_mem (hnodup : (members.map Prod.fst).Nodup) (h : (key, value) ∈ members) :
    members.lookup key = some value := by
  induction members with
  | nil => cases h
  | cons member rest ih =>
    obtain ⟨other, held⟩ := member
    obtain ⟨hother, hrest⟩ := List.nodup_cons.mp hnodup
    rcases List.mem_cons.mp h with heq | hmem
    · obtain ⟨rfl, rfl⟩ := Prod.mk.inj heq
      exact List.lookup_cons_self
    · have hne : (key == other) = false := by
        have hne : key ≠ other := by
          rintro rfl
          exact hother (List.mem_map.mpr ⟨(key, value), hmem, rfl⟩)
        simpa using hne
      rw [List.lookup_cons, hne]
      exact ih hrest hmem

/-- Among members without repetition the last one with a key is the first. -/
theorem get?_object (hnodup : (members.map Prod.fst).Nodup) (key : String) :
    (Json.object members).get? key = members.lookup key := by
  simp only [get?, List.findRev?_eq_find?_reverse]
  cases hfind : members.reverse.find? (·.1 == key) with
  | some member =>
    have hmem := List.mem_reverse.mp (List.mem_of_find?_eq_some hfind)
    have hkey : member.1 = key := by simpa using List.find?_some hfind
    exact (lookup_of_mem hnodup (hkey ▸ hmem)).symm
  | none =>
    refine (List.lookup_eq_none_iff.mpr fun member hmem => ?_).symm
    have hnot := List.find?_eq_none.mp hfind member (List.mem_reverse.mpr hmem)
    have hne : key ≠ member.1 := fun heq => hnot (beq_iff_eq.mpr heq.symm)
    simpa using hne

theorem keys_canonicalMembers_perm (h : (members.map Prod.fst).Nodup) :
    ((canonicalMembers members).map Prod.fst).Perm (members.map Prod.fst) := by
  induction members with
  | nil => exact List.Perm.refl _
  | cons member rest ih =>
    obtain ⟨other, held⟩ := member
    obtain ⟨hother, hrest⟩ := List.nodup_cons.mp h
    have hperm := ih hrest
    exact (keys_insertMember_perm (hperm.mem_iff.not.mpr hother)).trans (hperm.cons other)

/-- A canonical form holds the canonical forms of the values. -/
theorem lookup_canonicalMembers (h : (members.map Prod.fst).Nodup) (wanted : String) :
    (canonicalMembers members).lookup wanted = (members.lookup wanted).map canonical := by
  induction members with
  | nil => rfl
  | cons member rest ih =>
    obtain ⟨other, held⟩ := member
    obtain ⟨hother, hrest⟩ := List.nodup_cons.mp h
    have hnew : other ∉ (canonicalMembers rest).map Prod.fst :=
      (keys_canonicalMembers_perm hrest).mem_iff.not.mpr hother
    unfold canonicalMembers
    rw [lookup_insertMember hnew, List.lookup_cons, List.lookup_cons, ih hrest]
    split <;> rfl

/-- The two forms in which a document can come. -/
inductive Form where
  | written
  | canonical

/-- A document in a form. -/
def Form.apply : Form → Json → Json
  | written, value => value
  | canonical, value => value.canonical

/-- The members of an object in a form. -/
def Form.onMembers : Form → List (String × Json) → List (String × Json)
  | written, members => members
  | canonical, members => canonicalMembers members

variable (form : Form)

@[simp] theorem apply_array (items : List Json) :
    form.apply (.array items) = .array (items.map form.apply) := by
  cases form with
  | written => exact congrArg Json.array (List.map_id' items).symm
  | canonical => exact canonical_array items

@[simp] theorem apply_object (members : List (String × Json)) :
    form.apply (.object members) = .object (form.onMembers members) := by
  cases form with
  | written => rfl
  | canonical => simp [Form.apply, Form.onMembers, canonical]

@[simp] theorem apply_int (n : Int) : form.apply (.int n) = .int n := by
  cases form <;> rfl

@[simp] theorem apply_bool (b : Bool) : form.apply (.bool b) = .bool b := by
  cases form <;> rfl

@[simp] theorem apply_string (text : String) : form.apply (.string text) = .string text := by
  cases form <;> rfl

theorem keys_members_nodup (h : (members.map Prod.fst).Nodup) :
    ((form.onMembers members).map Prod.fst).Nodup := by
  cases form with
  | written => exact h
  | canonical => exact (keys_canonicalMembers_perm h).nodup_iff.mpr h

theorem lookup_members (h : (members.map Prod.fst).Nodup) (wanted : String) :
    (form.onMembers members).lookup wanted = (members.lookup wanted).map form.apply := by
  cases form with
  | written => exact Option.map_id'.symm
  | canonical => exact lookup_canonicalMembers h wanted

/-! ## Scalars and lists -/

/-- A document that is decoded to a value in both forms. -/
def Decodes {α : Type} (decoder : Decoder α) (document : Json) (value : α) : Prop :=
  ∀ form : Form, decoder (form.apply document) = .ok value

theorem decodes_nat {limit n : Nat} (h : n < limit) (expected : String) :
    Decodes (Decoder.unsigned limit expected) (.nat n) n := by
  intro form
  have hbounds : (0 : Int) ≤ n ∧ (n : Int) ≤ limit - 1 := by omega
  simp [Json.nat, Decoder.unsigned, Decoder.bounded, hbounds, Except.map]

theorem decodes_byte (value : UInt8) : Decodes Decoder.byte (.byte value) value := by
  intro form
  have h := decodes_nat (UInt8.toNat_lt value) "a byte" form
  simp only [Decoder.byte, Json.byte, UInt8.size, h, Except.map, Nat.toUInt8, UInt8.ofNat_toNat]

theorem decodes_word (value : UInt16) : Decodes Decoder.word (.word value) value := by
  intro form
  have h := decodes_nat (UInt16.toNat_lt value) "a word" form
  simp only [Decoder.word, Json.word, UInt16.size, h, Except.map, Nat.toUInt16,
    UInt16.ofNat_toNat]

theorem decodes_word32 (value : UInt32) :
    Decodes Decoder.word32 (.nat value.toNat) value := by
  intro form
  have h := decodes_nat (UInt32.toNat_lt value) "a number of 32 bits" form
  simp only [Decoder.word32, UInt32.size, h, Except.map, Nat.toUInt32, UInt32.ofNat_toNat]

theorem decodes_word64 (value : UInt64) : Decodes Decoder.word64 (.word64 value) value := by
  intro form
  have h := decodes_nat (UInt64.toNat_lt value) "a number of 64 bits" form
  simp only [Decoder.word64, Json.word64, UInt64.size, h, Except.map, Nat.toUInt64,
    UInt64.ofNat_toNat]

theorem decodes_size {n : Nat} (h : n < UInt64.size) : Decodes Decoder.size (.nat n) n :=
  decodes_nat h "a size"

theorem decodes_bool (value : Bool) : Decodes Decoder.bool (.bool value) value := by
  intro form
  rw [apply_bool]
  rfl

theorem decodes_string (value : String) : Decodes Decoder.string (.string value) value := by
  intro form
  rw [apply_string]
  rfl

/-- A list is decoded item by item. -/
theorem decodes_list {α : Type} {item : Decoder α} {encode : α → Json} {values : List α}
    (h : ∀ value ∈ values, Decodes item (encode value) value) :
    Decodes (Decoder.list item) (.ofList encode values) values := by
  intro form
  simp only [Json.ofList, apply_array, Decoder.list]
  induction values with
  | nil => rfl
  | cons value rest ih =>
    have hvalue := h value List.mem_cons_self form
    have hrest := ih fun other hother => h other (List.mem_cons_of_mem _ hother)
    simp only [List.map_cons, List.mapM_cons, hvalue, hrest]
    rfl

/-- A value that is there is decoded as itself, unless it is null. -/
theorem decodes_some {α : Type} {inner : Decoder α} {document : Json} {value : α}
    (hnull : ∀ form : Form, form.apply document ≠ .null) (h : Decodes inner document value) :
    Decodes (Decoder.option inner) document (some value) := by
  intro form
  have hvalue := h form
  have hne := hnull form
  unfold Decoder.option
  split
  · next heq => exact absurd heq hne
  · rw [hvalue]
    rfl

/-! ## Records -/

/-- A lookup finds members, in one of the two forms. -/
def Finds (lookup : FieldLookup) (members : List (String × Json)) : Prop :=
  ∃ form : Form, ∀ key value, (key, value) ∈ members → lookup key = some (form.apply value)

/-- A record is written by members if every lookup that finds them yields a value and
passes all checks. -/
structure Written {α : Type} (record : RecordDecoder α) (members : List (String × Json))
    (value : α) : Prop where
  build : ∀ lookup, Finds lookup members → record.build lookup = .ok value
  checks : ∀ lookup, Finds lookup members → ∀ field ∈ record.fields, ∀ found,
    lookup field.name = some found → field.check found = none

section Written

variable {α β : Type}

theorem finds_left {lookup : FieldLookup} {first second : List (String × Json)}
    (h : Finds lookup (first ++ second)) : Finds lookup first := by
  obtain ⟨form, hform⟩ := h
  exact ⟨form, fun key value hmem => hform key value (List.mem_append_left _ hmem)⟩

theorem finds_right {lookup : FieldLookup} {first second : List (String × Json)}
    (h : Finds lookup (first ++ second)) : Finds lookup second := by
  obtain ⟨form, hform⟩ := h
  exact ⟨form, fun key value hmem => hform key value (List.mem_append_right _ hmem)⟩

theorem Written.pure (value : α) : Written (Pure.pure value : RecordDecoder α) [] value where
  build _ _ := rfl
  checks _ _ _ h := by cases h

/-- A field that must be there is written by its one member. -/
theorem Written.required {name : String} {decoder : Decoder α} {document : Json} {value : α}
    (h : Decodes decoder document value) :
    Written (RecordDecoder.required name decoder) [(name, document)] value where
  build lookup := by
    rintro ⟨form, hfinds⟩
    have hlookup := hfinds name document List.mem_cons_self
    simp only [RecordDecoder.required, hlookup, h form]
    rfl
  checks lookup := by
    rintro ⟨form, hfinds⟩ field hfield found hfound
    obtain rfl := List.mem_singleton.mp hfield
    obtain rfl := Option.some.inj
      (hfound.symm.trans (hfinds name document List.mem_cons_self))
    simp only [RecordDecoder.mismatch?, h form]

/-- A field that may be left out is written by its member, too. -/
theorem Written.withDefault {name : String} {decoder : Decoder α} {document : Json} {value : α}
    (default : α) (h : Decodes decoder document value) :
    Written (RecordDecoder.withDefault name decoder default) [(name, document)] value where
  build lookup := by
    rintro ⟨form, hfinds⟩
    have hlookup := hfinds name document List.mem_cons_self
    simp only [RecordDecoder.withDefault, hlookup, h form]
    rfl
  checks := (Written.required h).checks

/-- Two parts of a record are written one after the other. -/
theorem Written.seq {first : RecordDecoder (α → β)} {second : RecordDecoder α}
    {left right : List (String × Json)} {f : α → β} {value : α} (hfirst : Written first left f)
    (hsecond : Written second right value) :
    Written (first <*> second) (left ++ right) (f value) where
  build lookup h := by
    have hf := hfirst.build lookup (finds_left h)
    have hvalue := hsecond.build lookup (finds_right h)
    simp only [Seq.seq, hf, hvalue]
    rfl
  checks lookup h field hfield found hfound := by
    rcases List.mem_append.mp hfield with hfield | hfield
    · exact hfirst.checks lookup (finds_left h) field hfield found hfound
    · exact hsecond.checks lookup (finds_right h) field hfield found hfound

theorem Written.map {record : RecordDecoder α} {members : List (String × Json)} {value : α}
    (f : α → β) (h : Written record members value) : Written (f <$> record) members (f value) :=
  Written.seq (Written.pure f) h

/-- Members without repetition pass the checks that their values pass. -/
theorem checkMembers_eq_ok {fields : List FieldCheck} {seen : List String}
    (hnodup : (members.map Prod.fst).Nodup) (hseen : ∀ key ∈ seen, key ∉ members.map Prod.fst)
    (hchecks : ∀ key value, (key, value) ∈ members → ∀ field ∈ fields, field.name = key →
      field.check value = none) :
    RecordDecoder.checkMembers fields seen members = .ok () := by
  induction members generalizing seen with
  | nil => rfl
  | cons member rest ih =>
    obtain ⟨key, value⟩ := member
    obtain ⟨hkey, hrest⟩ := List.nodup_cons.mp hnodup
    have hlater : ∀ key value, (key, value) ∈ rest → ∀ field ∈ fields, field.name = key →
        field.check value = none := fun key value hmem =>
      hchecks key value (List.mem_cons_of_mem _ hmem)
    have hseen' : ∀ other ∈ seen, other ∉ rest.map Prod.fst := fun other hother hmem =>
      hseen other hother (List.mem_cons_of_mem _ hmem)
    unfold RecordDecoder.checkMembers
    split
    · exact ih hrest hseen' hlater
    · -- a field has this key, and it has not been seen before
      next field hfield =>
      have hname : field.name = key := by simpa using List.find?_some hfield
      have hcheck := hchecks key value List.mem_cons_self field (List.mem_of_find?_eq_some hfield)
        hname
      have hnew : seen.contains key = false := by
        have hnotMem : key ∉ seen := fun hmem => hseen key hmem List.mem_cons_self
        simpa using hnotMem
      simp only [hnew, Bool.false_eq_true, if_false, hcheck]
      refine ih hrest (fun other hother => ?_) hlater
      rcases List.mem_cons.mp hother with rfl | hother
      · exact hkey
      · exact hseen' other hother

/-- A record is decoded from an object without repetition if it is put together from what is
looked up there, sorted or not. -/
theorem decodes_of_lookup {record : RecordDecoder α} {value : α} (name : String)
    (hnodup : (members.map Prod.fst).Nodup)
    (hbuild : ∀ form : Form,
      record.build (fun key => (form.onMembers members).lookup key) = .ok value)
    (hchecks : ∀ form : Form, ∀ field ∈ record.fields, ∀ found,
      (form.onMembers members).lookup field.name = some found → field.check found = none) :
    Decodes (record.decode name) (.object members) value := by
  intro form
  have hnodup' := keys_members_nodup form hnodup
  have hmembers : RecordDecoder.checkMembers record.fields [] (form.onMembers members) =
      .ok () := by
    refine checkMembers_eq_ok hnodup' (by simp) fun key value hmem field hfield hname => ?_
    refine hchecks form field hfield value ?_
    rw [hname]
    exact lookup_of_mem hnodup' hmem
  rw [apply_object]
  simp only [RecordDecoder.decode, RecordDecoder.decodeMembers, hmembers, hbuild form]
  rfl

/-- Sorted or not, members are found by their keys. -/
theorem finds_onMembers (form : Form) (hnodup : (members.map Prod.fst).Nodup) :
    Finds (fun key => (form.onMembers members).lookup key) members :=
  ⟨form, fun key _ hmem => (lookup_members form hnodup key).trans
    (congrArg (Option.map form.apply) (lookup_of_mem hnodup hmem))⟩

/-- A record that is written by the members of an object without repetition is decoded
from it. -/
theorem decodes_object {record : RecordDecoder α} {value : α} (name : String)
    (hnodup : (members.map Prod.fst).Nodup) (h : Written record members value) :
    Decodes (record.decode name) (.object members) value :=
  decodes_of_lookup name hnodup (fun form => h.build _ (finds_onMembers form hnodup))
    fun form => h.checks _ (finds_onMembers form hnodup)

/-- A last field that is left out has its default. -/
theorem decodes_object_default {first : RecordDecoder (α → β)} {f : α → β} {field : String}
    {decoder : Decoder α} {default : α} (name : String) (hnodup : (members.map Prod.fst).Nodup)
    (habsent : field ∉ members.map Prod.fst) (h : Written first members f) :
    Decodes ((first <*> RecordDecoder.withDefault field decoder default).decode name)
      (.object members) (f default) := by
  have hnone (form : Form) : (form.onMembers members).lookup field = none := by
    rw [lookup_members form hnodup, Option.map_eq_none_iff, List.lookup_eq_none_iff]
    rintro ⟨key, value⟩ hmem
    have hne : field ≠ key := fun heq => habsent (List.mem_map.mpr ⟨_, hmem, heq.symm⟩)
    simpa using hne
  refine decodes_of_lookup name hnodup (fun form => ?_) fun form other hother found hfound => ?_
  · have hf := h.build _ (finds_onMembers form hnodup)
    simp only [Seq.seq, hf, RecordDecoder.withDefault, hnone form]
    rfl
  · rcases List.mem_append.mp hother with hother | hother
    · exact h.checks _ (finds_onMembers form hnodup) other hother found hfound
    · obtain rfl := List.mem_singleton.mp hother
      rw [hnone form] at hfound
      cases hfound

end Written

end AppleOne.Json
