import MailSearch.Proofs.Message.Reading

/-! # Fields and the addresses in them

A message keeps the addresses of its fields beside the fields. Whatever is done to it, and in
whatever order, the addresses of a role are those in the values of its header, one value after the
other.
-/

namespace MailSearch

theorem Role.eq_of_sameHeader (r r' : Role)
    (h : lowerAscii r.headerName = lowerAscii r'.headerName) : r = r' := by
  revert h
  cases r <;> cases r' <;> decide

theorem Role.ofHeader?_eq_some_iff {name : String} {role : Role} :
    ofHeader? name = some role ↔ lowerAscii role.headerName = lowerAscii name :=
  find?_sameIgnoringCase mem_all eq_of_sameHeader

theorem addressesIn_of_eq_none {value : String} (h : parseAddresses? (Utf8.encode value) = none) :
    addressesIn value = [] := by
  rw [addressesIn, h]
  rfl

theorem addressesIn_of_eq_some {value : String} {found : List Address}
    (h : parseAddresses? (Utf8.encode value) = some found) :
    addressesIn value = found.flatMap fun a => a.mailboxes.map fun box => .ofSpec box.addr := by
  rw [addressesIn, h]
  rfl

namespace Message

/-- The messages that can be made, with the fields added to them in order. -/
inductive Built : Message → List HeaderField → Prop
  | empty : Built empty []
  | parse (raw : Bytes) : Built (parse raw) (HeaderField.parseBlock raw)
  | addField {m : Message} {added : List HeaderField} (field : HeaderField) :
      Built m added → Built (m.addField field) (added ++ [field])
  | setFlag {m : Message} {added : List HeaderField} (flag : Flag) :
      Built m added → Built (m.setFlag flag) added
  | setUid {m : Message} {added : List HeaderField} (uid : Option Uid) :
      Built m added → Built (m.setUid uid) added

/-- The addresses of every role are those in the values of its header. -/
def Mirrors (m : Message) : Prop :=
  ∀ role, m.addresses role = (m.values role.headerName).flatMap addressesIn

variable {m : Message} {added : List HeaderField} {field : HeaderField} {role : Role}

theorem values_eq (m : Message) (name : String) :
    m.values name =
      (m.fields.filter fun f => lowerAscii f.name = lowerAscii name).map HeaderField.value := by
  unfold values
  congr 1
  apply List.filter_congr
  intro f _
  rw [Bool.eq_iff_iff, sameIgnoringCase_iff, decide_eq_true_iff]

theorem values_addField (m : Message) (field : HeaderField) (name : String) :
    (m.addField field).values name =
      m.values name ++ if lowerAscii field.name = lowerAscii name then [field.value] else [] := by
  simp only [values_eq, addField, List.filter_append, List.map_append]
  congr 1
  split <;> simp [*]

theorem addresses_addField_of_same (h : lowerAscii field.name = lowerAscii role.headerName) :
    (m.addField field).addresses role = m.addresses role ++ addressesIn field.value := by
  simp [addField, Role.ofHeader?_eq_some_iff.mpr h.symm]

theorem addresses_addField_of_other (h : lowerAscii field.name ≠ lowerAscii role.headerName) :
    (m.addField field).addresses role = m.addresses role := by
  cases hr : Role.ofHeader? field.name with
  | none => simp [addField, hr]
  | some r =>
    have hne : role ≠ r := by
      rintro rfl
      exact h (Role.ofHeader?_eq_some_iff.mp hr).symm
    simp [addField, hr, hne]

theorem Mirrors.addField (hm : m.Mirrors) (field : HeaderField) : (m.addField field).Mirrors := by
  intro role
  rw [values_addField, List.flatMap_append]
  by_cases h : lowerAscii field.name = lowerAscii role.headerName
  · rw [addresses_addField_of_same h, hm role, if_pos h, List.flatMap_singleton]
  · rw [addresses_addField_of_other h, hm role, if_neg h, List.flatMap_nil, List.append_nil]

theorem Mirrors.foldl_addField (hm : m.Mirrors) (fields : List HeaderField) :
    (fields.foldl Message.addField m).Mirrors := by
  induction fields generalizing m with
  | nil => exact hm
  | cons f fields ih => exact ih (hm.addField f)

theorem mirrors_empty : empty.Mirrors := fun _ => rfl

namespace Built

theorem mirrors (h : Built m added) : m.Mirrors := by
  induction h with
  | empty => exact mirrors_empty
  | parse raw => exact mirrors_empty.foldl_addField _
  | addField field _ ih => exact ih.addField field
  | setFlag flag _ ih => exact ih
  | setUid uid _ ih => exact ih

theorem fields_eq (h : Built m added) : m.fields = added := by
  induction h with
  | empty => rfl
  | parse raw => exact (Message.foldl_addField _ Message.empty).1
  | addField field _ ih => rw [Message.addField, ih]
  | setFlag flag _ ih => exact ih
  | setUid uid _ ih => exact ih

/-- The addresses of a role are always those in the values of its header, in the order in which they
were added. -/
theorem addresses_mirror_fields (h : Built m added) :
    (∀ role, m.addresses role = (m.values role.headerName).flatMap fun value =>
      match parseAddresses? (Utf8.encode value) with
      | some found => found.flatMap fun a => a.mailboxes.map fun box => .ofSpec box.addr
      | none => []) ∧
    (∀ name, m.values name =
      (added.filter fun f => lowerAscii f.name = lowerAscii name).map HeaderField.value) ∧
    (∀ flag uid role name,
      (m.setFlag flag).addresses role = m.addresses role ∧
      (m.setFlag flag).values name = m.values name ∧
      (m.setUid uid).addresses role = m.addresses role ∧
      (m.setUid uid).values name = m.values name) ∧
    ∀ field : HeaderField,
      (m.addField field).flags = m.flags ∧ (m.addField field).uid = m.uid ∧
      ∀ role, lowerAscii field.name ≠ lowerAscii role.headerName ∨
          parseAddresses? (Utf8.encode field.value) = none →
        (m.addField field).addresses role = m.addresses role := by
  refine ⟨?_, ?_, fun flag uid role name => ⟨rfl, rfl, rfl, rfl⟩, fun field => ⟨rfl, rfl, ?_⟩⟩
  · intro role
    rw [h.mirrors role]
    congr 1
    funext value
    split
    · rename_i found hfound
      exact addressesIn_of_eq_some hfound
    · rename_i hnone
      exact addressesIn_of_eq_none hnone
  · intro name
    rw [values_eq, h.fields_eq]
  · intro role hother
    by_cases hname : lowerAscii field.name = lowerAscii role.headerName
    · have hnone := hother.resolve_left (not_not_intro hname)
      rw [addresses_addField_of_same hname, addressesIn_of_eq_none hnone, List.append_nil]
    · exact addresses_addField_of_other hname

end Built

/-- A value that is no address list stands between two that are. -/
theorem addresses_mirror_fields_unparsed :
    ∃ m added, Built m added ∧
      m.addresses .sender = [⟨"a", "b"⟩, ⟨"c", "d"⟩, ⟨"e", "f"⟩] ∧
      m.values "FROM" = ["G:a@b,<c@d>;", "<<<", "e@f"] := by
  have h := (((Built.parse (Utf8.encode "From: G:a@b,<c@d>;\n")).addField ⟨"fROM", "<<<"⟩).setFlag
    (.keyword "k")).addField ⟨"from", "e@f"⟩
  obtain ⟨haddresses, hvalues, -⟩ := h.addresses_mirror_fields
  refine ⟨_, _, h, ?_, ?_⟩
  · rw [haddresses]
    decide +kernel
  · rw [hvalues]
    decide +kernel

end Message

end MailSearch
