import NotificationQueue.Json.Record
import NotificationQueue.Proofs.Json.Reading

/-!
Decoding what has been written. The tree of a value decodes to the value again just if its nesting
is allowed, and the tree of an object to a record with the members of the object for its fields.
-/
namespace NotificationQueue.Json
set_option autoImplicit false

/-! ## Nesting -/

mutual

/-- How many arrays and objects are nested in one another, at most. -/
def depth : Json → Nat
  | .arr items => depthOfItems items + 1
  | .obj members => depthOfMembers members + 1
  | _ => 0

def depthOfItems : List Json → Nat
  | [] => 0
  | v :: rest => max (depth v) (depthOfItems rest)

def depthOfMembers : List (String × Json) → Nat
  | [] => 0
  | (_, v) :: rest => max (depth v) (depthOfMembers rest)

end

theorem depthOfItems_le_iff {items : List Json} {room : Nat} :
    depthOfItems items ≤ room ↔ ∀ v ∈ items, depth v ≤ room := by
  induction items with
  | nil => simp [depthOfItems]
  | cons v items ih => rw [depthOfItems, Nat.max_le, ih, List.forall_mem_cons]

/-! ## Values of any shape -/

variable {members : List (String × Json)} {k name : String} {v : Json}

theorem setMember_of_notMem (h : k ∉ members.map Prod.fst) :
    setMember k v members = members ++ [(k, v)] := by
  induction members with
  | nil => rfl
  | cons m members ih =>
    obtain ⟨n, w⟩ := m
    rw [List.map_cons, List.mem_cons, not_or] at h
    rw [setMember, if_neg (Ne.symm h.1), ih h.2, List.cons_append]

theorem foldl_setMember (before : List (String × Json))
    (h : ((before ++ members).map Prod.fst).Nodup) :
    members.foldl (fun ms (k, v) => setMember k v ms) before = before ++ members := by
  induction members generalizing before with
  | nil => rw [List.foldl_nil, List.append_nil]
  | cons m members ih =>
    obtain ⟨k, v⟩ := m
    have hk : k ∉ before.map Prod.fst := by
      rw [List.map_append, List.nodup_append] at h
      exact fun hmem => h.2.2 k hmem k (by simp) rfl
    rw [List.foldl_cons]
    dsimp only
    rw [setMember_of_notMem hk, ih _ (by simpa using h), List.append_assoc, List.singleton_append]

theorem ofPairs_of_nodup (h : (members.map Prod.fst).Nodup) : ofPairs members = members :=
  foldl_setMember [] h

mutual

/-- **The tree of a value decodes to the value**, just if there is room for its nesting. -/
theorem decodeValue_tree (v : Json) (hv : v.IsExact) (room : Nat) :
    decodeValue room (tree v) = if v.depth ≤ room then some v else none := by
  match v, hv with
  | .null, _ | .bool _, _ => rfl
  | .int n, hv => exact value?_ofInt hv
  | .str s, _ =>
    rw [tree, decodeValue, textOfPieces?_piecesOf, Option.map_some]
    rfl
  | .arr items, hv =>
    rw [tree, decodeValue, depth]
    cases room with
    | zero => rfl
    | succ room =>
      rw [if_neg (Nat.succ_ne_zero room), Nat.add_sub_cancel, decodeItems_trees items hv room]
      simp only [Nat.succ_le_succ_iff]
      split <;> rfl
  | .obj members, ⟨hnodup, hv⟩ =>
    rw [tree, decodeValue, depth]
    cases room with
    | zero => rfl
    | succ room =>
      rw [if_neg (Nat.succ_ne_zero room), Nat.add_sub_cancel,
        decodeMembers_memberTrees members hv room]
      simp only [Nat.succ_le_succ_iff]
      split
      · rw [Option.map_some, ofPairs_of_nodup hnodup]
      · rfl

theorem decodeItems_trees (items : List Json) (hitems : AreExact items) (room : Nat) :
    decodeItems room (trees items) =
      if depthOfItems items ≤ room then some items else none := by
  match items, hitems with
  | [], _ => rfl
  | v :: items, ⟨hv, hitems⟩ =>
    rw [trees, decodeItems, decodeValue_tree v hv room, decodeItems_trees items hitems room,
      depthOfItems]
    by_cases hfirst : depth v ≤ room
    · simp only [hfirst, if_true, Nat.max_le, true_and]
      split <;> rfl
    · simp only [hfirst, if_false, Nat.max_le, false_and]

theorem decodeMembers_memberTrees (members : List (String × Json))
    (hmembers : MembersExact members) (room : Nat) :
    decodeMembers room (memberTrees members) =
      if depthOfMembers members ≤ room then some members else none := by
  match members, hmembers with
  | [], _ => rfl
  | (k, v) :: members, ⟨hv, hmembers⟩ =>
    rw [memberTrees, decodeMembers, textOfPieces?_piecesOf, decodeValue_tree v hv room,
      decodeMembers_memberTrees members hmembers room, depthOfMembers]
    by_cases hfirst : depth v ≤ room
    · simp only [hfirst, if_true, Nat.max_le, true_and]
      split <;> rfl
    · simp only [hfirst, if_false, Nat.max_le, false_and]

end

/-! ## Scalars, lists and names -/

variable {α : Type} {room : Nat}

theorem decodeBool_tree (b : Bool) : decodeBool room (tree (.bool b)) = some b := rfl

theorem decodeText_tree (s : String) : decodeText room (tree (.str s)) = some s :=
  textOfPieces?_piecesOf s

theorem decodeInt_tree {least greatest n : Int} (hexact : IsExact (.int n)) (hlow : least ≤ n)
    (hhigh : n ≤ greatest) : decodeInt least greatest room (tree (.int n)) = some n := by
  rw [tree, decodeInt, value?_ofInt hexact]
  exact if_pos ⟨hlow, hhigh⟩

theorem isExact_word {n : Nat} (h : n ≤ Text.maxWord64) : IsExact (.int n) := by
  refine ⟨?_, Int.ofNat_le.2 h⟩
  omega

theorem decodeWord_tree {n : Nat} (h : n ≤ Text.maxWord64) :
    decodeWord room (tree (.int n)) = some n := by
  rw [decodeWord, decodeInt_tree (isExact_word h) (Int.natCast_nonneg n) (Int.ofNat_le.2 h)]
  rfl

def IsSigned64 (n : Int) : Prop :=
  -(Text.maxSigned64 + 1) ≤ n ∧ n ≤ Text.maxSigned64

theorem isExact_signed {n : Int} (h : IsSigned64 n) : IsExact (.int n) := by
  have hwide : (Text.maxSigned64 : Int) ≤ Text.maxWord64 := by decide
  exact ⟨h.1, Int.le_trans h.2 hwide⟩

theorem decodeSigned_tree {n : Int} (h : IsSigned64 n) :
    decodeSigned room (tree (.int n)) = some n :=
  decodeInt_tree (isExact_signed h) h.1 h.2

theorem decodeName_tree (named? : String → Option α) (s : String) :
    decodeName named? room (tree (.str s)) = named? s := by
  rw [tree, decodeName, textOfPieces?_piecesOf]
  rfl

theorem decodeMetadata_tree {metadata : Metadata} (hexact : IsExact (.obj metadata)) :
    decodeMetadata room (tree (.obj metadata)) =
      if depth (.obj metadata) ≤ room then some metadata else none := by
  have hvalue := decodeValue_tree (.obj metadata) hexact room
  rw [tree] at hvalue ⊢
  rw [decodeMetadata, hvalue]
  by_cases hroom : depth (.obj metadata) ≤ room
  · rw [if_pos hroom, if_pos hroom]
  · rw [if_neg hroom, if_neg hroom]

theorem decodeNullable_of_ne {decode : Decode α} {t : Tree} (h : t ≠ .null) :
    decodeNullable decode room t = (decode room t).map some := by
  cases t with
  | null => exact absurd rfl h
  | _ => rfl

theorem decodeList_tree {β : Type} {toJson : α → Json} {decode : Decode β} {read : α → β}
    {l : List α} (h : ∀ a ∈ l, decode room (tree (toJson a)) = some (read a)) :
    decodeList decode (room + 1) (tree (.arr (l.map toJson))) = some (l.map read) := by
  rw [tree, decodeList]
  induction l with
  | nil => rfl
  | cons a l ih =>
    rw [List.map_cons, trees, List.mapM_cons, h a List.mem_cons_self,
      ih fun b hb => h b (List.mem_cons_of_mem a hb)]
    rfl

theorem decodeList_eq_none {β : Type} {toJson : α → Json} {decode : Decode β} {l : List α} {a : α}
    (ha : a ∈ l) (h : decode room (tree (toJson a)) = none) :
    decodeList decode (room + 1) (tree (.arr (l.map toJson))) = none := by
  rw [tree, decodeList]
  induction l with
  | nil => cases ha
  | cons b l ih =>
    rw [List.map_cons, trees, List.mapM_cons]
    rcases List.mem_cons.1 ha with rfl | hrest
    · rw [h]
      rfl
    · rw [ih hrest]
      cases decode room (tree (toJson b)) <;> rfl

/-! ## Records -/

theorem lookup_cons_self : lookup k ((k, v) :: members) = some v := if_pos rfl

theorem lookup_cons_of_ne (h : k ≠ name) : lookup name ((k, v) :: members) = lookup name members :=
  if_neg h

theorem lookup_eq_none (h : k ∉ members.map Prod.fst) : lookup k members = none := by
  induction members with
  | nil => rfl
  | cons m members ih =>
    obtain ⟨n, v⟩ := m
    rw [List.map_cons, List.mem_cons, not_or] at h
    rw [lookup, if_neg (Ne.symm h.1), ih h.2]

structure Fields.Holds (fs : Fields) (room : Nat) (members : List (String × Json)) : Prop where
  room : fs.room = room
  tree? : ∀ name, fs.tree? name = (lookup name members).map tree

theorem addMembers_memberTrees {names : List String} (found : List (String × Tree))
    (hnames : ∀ k ∈ members.map Prod.fst, k ∈ names) (hnodup : (members.map Prod.fst).Nodup)
    (hfresh : ∀ k ∈ members.map Prod.fst, found.any (·.1 = k) = false) :
    ∃ after, (memberTrees members).foldlM
        (fun found (k, t) => Fields.addMember names found k t) found = some after ∧
      ∀ name, (after.find? (·.1 = name)).map Prod.snd =
        ((lookup name members).map tree).or ((found.find? (·.1 = name)).map Prod.snd) := by
  induction members generalizing found with
  | nil => exact ⟨found, rfl, fun name => by rw [lookup, Option.map_none, Option.none_or]⟩
  | cons m members ih =>
    obtain ⟨k, v⟩ := m
    rw [List.map_cons, List.nodup_cons] at hnodup
    have hadd : Fields.addMember names found (piecesOf k) (tree v) =
        some ((k, tree v) :: found) := by
      have hname : names.contains k = true := List.contains_iff_mem.2 (hnames k (by simp))
      have hnew : found.any (·.1 = k) = false := hfresh k (by simp)
      rw [Fields.addMember, textOfPieces?_piecesOf, Option.bind_eq_bind, Option.bind_some,
        if_pos hname, hnew]
      rfl
    obtain ⟨after, hafter, hfind⟩ := ih ((k, tree v) :: found)
      (fun n hn => hnames n (List.mem_cons_of_mem k hn)) hnodup.2 (fun n hn => by
        have hne : k ≠ n := fun h => hnodup.1 (h ▸ hn)
        rw [List.any_cons, hfresh n (List.mem_cons_of_mem k hn)]
        simp [hne])
    refine ⟨after, ?_, fun name => ?_⟩
    · rw [memberTrees, List.foldlM_cons]
      simp only [hadd]
      exact hafter
    · rw [hfind, lookup, List.find?_cons]
      by_cases hk : k = name
      · subst hk
        simp [lookup_eq_none hnodup.1]
      · simp [hk]

/-- **An object with some of the fields of a record decodes to them**, and so to what is made of
them. -/
theorem bind_fields?_tree {fields : List Field} {make : Fields → Option α} {o : Option α}
    (hnames : ∀ k ∈ members.map Prod.fst, k ∈ fields.map Field.name)
    (hnodup : (members.map Prod.fst).Nodup)
    (hmake : ∀ fs : Fields, fs.Holds room members → make fs = o) :
    (fields? fields (room + 1) (tree (.obj members))).bind make = o := by
  obtain ⟨after, hafter, hfind⟩ := addMembers_memberTrees [] hnames hnodup fun _ _ => rfl
  have hfields : fields? fields (room + 1) (tree (.obj members)) = some ⟨room, after⟩ := by
    rw [tree, fields?]
    simp only [hafter]
    rfl
  rw [hfields, Option.bind_some]
  refine hmake _ ⟨rfl, fun name => ?_⟩
  rw [Fields.tree?, hfind, List.find?_nil, Option.map_none, Option.or_none]

/-! ## Members without a field -/

def known (fields : List Field) (members : List (String × Json)) : List (String × Json) :=
  members.filter fun m => (fields.map Field.name).contains m.1

theorem known_cons {fields : List Field} : known fields ((k, v) :: members) =
    if (fields.map Field.name).contains k = true then (k, v) :: known fields members
    else known fields members := List.filter_cons

theorem lookup_known {fields : List Field} (h : (fields.map Field.name).contains name = true) :
    lookup name (known fields members) = lookup name members := by
  induction members with
  | nil => rfl
  | cons m members ih =>
    obtain ⟨k, v⟩ := m
    by_cases hk : k = name
    · subst hk
      rw [known_cons, if_pos h, lookup_cons_self, lookup_cons_self]
    · rw [known_cons, lookup_cons_of_ne hk, ← ih]
      split
      · exact lookup_cons_of_ne hk
      · rfl

theorem foldlM_addMember_known {fields : List Field} (found : List (String × Tree)) :
    (memberTrees members).foldlM
        (fun found (k, t) => Fields.addMember (fields.map Field.name) found k t) found =
      (memberTrees (known fields members)).foldlM
        (fun found (k, t) => Fields.addMember (fields.map Field.name) found k t) found := by
  induction members generalizing found with
  | nil => rfl
  | cons m members ih =>
    obtain ⟨k, v⟩ := m
    by_cases hknown : (fields.map Field.name).contains k = true
    · rw [known_cons, if_pos hknown, memberTrees, memberTrees, List.foldlM_cons, List.foldlM_cons]
      exact congrArg _ (funext fun after => ih after)
    · have hskip : Fields.addMember (fields.map Field.name) found (piecesOf k) (tree v) =
          some found := by
        rw [Fields.addMember, textOfPieces?_piecesOf, Option.bind_eq_bind, Option.bind_some,
          if_neg hknown]
        rfl
      rw [known_cons, if_neg hknown, memberTrees, List.foldlM_cons]
      simp only [hskip]
      exact ih found

theorem bind_fields?_known {fields : List Field} {make : Fields → Option α} {o : Option α}
    (hnodup : (members.map Prod.fst).Nodup)
    (hmake : ∀ fs : Fields, fs.Holds room (known fields members) → make fs = o) :
    (fields? fields (room + 1) (tree (.obj members))).bind make = o := by
  have hsame : fields? fields (room + 1) (tree (.obj members)) =
      fields? fields (room + 1) (tree (.obj (known fields members))) := by
    rw [tree, tree, fields?, fields?]
    exact congrArg _ (foldlM_addMember_known [])
  rw [hsame]
  refine bind_fields?_tree (fun k hk => ?_)
    (hnodup.sublist ((List.filter_sublist).map Prod.fst)) hmake
  obtain ⟨m, hm, rfl⟩ := List.mem_map.1 hk
  exact List.contains_iff_mem.1 (List.mem_filter.1 hm).2

/-! ## Members that may be absent -/

def present (members : List (String × Option Json)) : List (String × Json) :=
  members.filterMap fun (k, v) => v.map (k, ·)

theorem map_fst_present_sublist (members : List (String × Option Json)) :
    ((present members).map Prod.fst).Sublist (members.map Prod.fst) := by
  induction members with
  | nil => exact List.Sublist.refl []
  | cons m members ih =>
    obtain ⟨k, v⟩ := m
    cases v with
    | none => exact ih.cons k
    | some v => exact ih.cons_cons k

theorem lookup_present_cons_of_ne {o : Option Json} {members : List (String × Option Json)}
    (h : k ≠ name) : lookup name (present ((k, o) :: members)) = lookup name (present members) := by
  cases o with
  | none => rfl
  | some v => exact lookup_cons_of_ne h

theorem lookup_present_cons_self {o : Option Json} {members : List (String × Option Json)}
    (h : k ∉ members.map Prod.fst) : lookup k (present ((k, o) :: members)) = o := by
  cases o with
  | none =>
    exact lookup_eq_none fun hk => h ((map_fst_present_sublist members).subset hk)
  | some v => exact lookup_cons_self

theorem bind_fields?_record {fields : List Field} {members : List (String × Option Json)}
    {make : Fields → Option α} {o : Option α}
    (hnames : ∀ k ∈ members.map Prod.fst, k ∈ fields.map Field.name)
    (hnodup : (members.map Prod.fst).Nodup)
    (hmake : ∀ fs : Fields, fs.Holds room (present members) → make fs = o) :
    (fields? fields (room + 1) (tree (record members))).bind make = o := by
  have hsub := map_fst_present_sublist members
  exact bind_fields?_tree (fun k hk => hnames k (hsub.subset hk)) (hnodup.sublist hsub) hmake

theorem bind_fields?_known_record {fields : List Field} {members : List (String × Option Json)}
    {make : Fields → Option α} {o : Option α} (hnodup : (members.map Prod.fst).Nodup)
    (hmake : ∀ fs : Fields, fs.Holds room (known fields (present members)) → make fs = o) :
    (fields? fields (room + 1) (tree (record members))).bind make = o :=
  bind_fields?_known (hnodup.sublist (map_fst_present_sublist members)) hmake

namespace Fields.Holds

variable {fs : Fields} {decode : Decode α}

theorem required (h : fs.Holds room members) :
    fs.required name decode = (lookup name members).bind fun v => decode room (tree v) := by
  rw [Fields.required, h.tree?, h.room]
  cases lookup name members <;> rfl

theorem orElse (h : fs.Holds room members) (absent : α) :
    fs.orElse name absent decode =
      (lookup name members).elim (some absent) fun v => decode room (tree v) := by
  rw [Fields.orElse, h.tree?, h.room]
  cases lookup name members <;> rfl

theorem nullable (toJson : α → Json) {o : Option α} (h : fs.Holds room members)
    (hname : lookup name members = o.map toJson) (hnull : ∀ a, tree (toJson a) ≠ .null)
    (hdecode : ∀ a ∈ o, decode room (tree (toJson a)) = some a) :
    fs.nullable name decode = some o := by
  rw [Fields.nullable, h.orElse, hname]
  cases o with
  | none => rfl
  | some a =>
    rw [Option.map_some, Option.elim_some, decodeNullable_of_ne (hnull a), hdecode a rfl,
      Option.map_some]

end Fields.Holds

end NotificationQueue.Json
