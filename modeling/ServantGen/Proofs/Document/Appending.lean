import ServantGen.Proofs.Document.Sites
import ServantGen.Proofs.Text.Pieces

/-!
# A document with one more path

A path item is put behind the paths of a document. Of all nodes only the root and the object of the
paths change, so what is found by a reference stays the same as long as the reference names neither
of them nor anything below the paths. Documents are compared by this alone: whatever is found from
the sites of the first is found in the second as well.
-/

namespace ServantGen

/-! ## Trees -/

namespace Json

/-- A tree with a path item behind its paths. A tree without paths stays as it is. -/
def withPath (tree : Json) (path : String) (item : Json) : Json :=
  match tree, (tree.get? "paths").bind object? with
  | .object fields, some paths =>
    .object (Entries.put "paths" (.object (paths ++ [(path, item)])) fields)
  | _, _ => tree

section WithPath

variable {tree item : Json} {path : String} {paths : Entries Json}

theorem exists_withPath_eq (h : (tree.get? "paths").bind object? = some paths) (path : String)
    (item : Json) : ∃ fields : Entries Json, tree = .object fields ∧
      fields.get? "paths" = some (.object paths) ∧ tree.withPath path item =
        .object (Entries.put "paths" (.object (paths ++ [(path, item)])) fields) := by
  obtain ⟨found, hget, hobject⟩ := Option.bind_eq_some_iff.1 h
  cases tree with
  | object fields =>
    cases found with
    | object members =>
      obtain rfl := Option.some.inj hobject
      exact ⟨fields, rfl, hget, by simp [withPath, h]⟩
    | _ => simp [object?] at hobject
  | _ => simp [get?] at hget

theorem get?_withPath_same (h : (tree.get? "paths").bind object? = some paths) (path : String)
    (item : Json) :
    (tree.withPath path item).get? "paths" = some (.object (paths ++ [(path, item)])) := by
  obtain ⟨fields, -, -, heq⟩ := exists_withPath_eq h path item
  rw [heq]
  exact Entries.get?_put_same _ _ _

theorem get?_withPath_of_ne {key : String} (hkey : key ≠ "paths") (tree : Json) (path : String)
    (item : Json) : (tree.withPath path item).get? key = tree.get? key := by
  unfold withPath
  split
  · exact Entries.get?_put_of_ne hkey.symm _ _
  · rfl

theorem fieldsCount_append (first rest : List (String × Json)) :
    fieldsCount (first ++ rest) = fieldsCount first + fieldsCount rest := by
  induction first with
  | nil => simp [fieldsCount]
  | cons field first ih =>
    obtain ⟨key, value⟩ := field
    rw [List.cons_append, fieldsCount, fieldsCount, ih, Nat.add_assoc]

/-- A member that is replaced by a larger one makes an object larger. -/
theorem fieldsCount_le_put {key : String} {old new : Json} {fields : Entries Json}
    (h : fields.get? key = some old) (hsize : old.nodeCount ≤ new.nodeCount) :
    fieldsCount fields ≤ fieldsCount (fields.put key new) := by
  induction fields with
  | nil => simp [Entries.get?] at h
  | cons field fields ih =>
    obtain ⟨own, value⟩ := field
    by_cases hown : own = key
    · simp only [Entries.get?, if_pos hown, Option.some.injEq] at h
      subst h
      simp only [Entries.put, if_pos hown, fieldsCount]
      omega
    · simp only [Entries.get?, if_neg hown] at h
      have hrest := ih h
      simp only [Entries.put, if_neg hown, fieldsCount]
      omega

theorem nodeCount_le_withPath (tree : Json) (path : String) (item : Json) :
    tree.nodeCount ≤ (tree.withPath path item).nodeCount := by
  cases h : (tree.get? "paths").bind object? with
  | none => simp [withPath, h]
  | some paths =>
    obtain ⟨fields, rfl, hget, heq⟩ := exists_withPath_eq h path item
    have hsize : (Json.object paths).nodeCount ≤
        (Json.object (paths ++ [(path, item)])).nodeCount := by
      simp only [nodeCount, fieldsCount_append]
      omega
    have hfields := fieldsCount_le_put hget hsize
    rw [heq]
    simp only [nodeCount]
    omega

end WithPath

end Json

/-! ## References that avoid the paths -/

namespace Pointer

/-- A reference that names neither the root of a document nor its paths nor anything below them. -/
def AvoidsPaths (reference : String) : Prop :=
  reference ≠ "#" ∧ reference ≠ "#/paths" ∧ ¬ "#/paths/".toList <+: reference.toList

instance (reference : String) : Decidable (AvoidsPaths reference) :=
  inferInstanceAs (Decidable (_ ∧ _))

/-- A text without a slash and a tilde is written in one way only. -/
theorem eq_of_unescape_eq {token text : List Char} (h : unescape token = text)
    (hslash : '/' ∉ text) (htilde : '~' ∉ text) : token = text := by
  subst h
  fun_induction unescape token with
  | case1 => rfl
  | case2 rest => simp at hslash
  | case3 rest => simp at htilde
  | case4 c rest _ _ ih =>
    exact congrArg (c :: ·) (ih (fun hmem => hslash (List.mem_cons_of_mem _ hmem))
      fun hmem => htilde (List.mem_cons_of_mem _ hmem))

/-- The first piece of a text is the text, or a mark stands behind it. -/
theorem prefix_of_splitBy_eq_cons {cs piece : List Char} {pieces : List (List Char)}
    (h : Text.splitBy (· == '/') cs = piece :: pieces) : cs = piece ∨ piece ++ ['/'] <+: cs := by
  induction cs generalizing piece pieces with
  | nil =>
    obtain ⟨rfl, -⟩ := List.cons.inj h
    exact .inl rfl
  | cons c rest ih =>
    cases hmark : c == '/' with
    | true =>
      have heq := @Text.splitBy_cons_of_break (· == '/') c hmark rest
      rw [heq] at h
      obtain ⟨rfl, -⟩ := List.cons.inj h
      obtain rfl := beq_iff_eq.1 hmark
      exact .inr ⟨rest, rfl⟩
    | false =>
      obtain ⟨own, others, hrest, heq⟩ := @Text.exists_splitBy_cons (· == '/') c hmark rest
      rw [heq] at h
      obtain ⟨rfl, -⟩ := List.cons.inj h
      obtain rfl | hprefix := ih hrest
      · exact .inl rfl
      · exact .inr (List.cons_prefix_cons.2 ⟨rfl, hprefix⟩)

/-- The first token of a reference that avoids the paths does not name them. -/
theorem AvoidsPaths.unescape_ne {rest token : List Char} {tokens : List (List Char)}
    (h : AvoidsPaths (String.ofList ('#' :: '/' :: rest)))
    (htokens : Text.splitBy (· == '/') rest = token :: tokens) :
    String.ofList (unescape token) ≠ "paths" := by
  intro heq
  obtain ⟨-, hwhole, hbelow⟩ := h
  have htoken : token = "paths".toList := by
    refine eq_of_unescape_eq ?_ (by decide) (by decide)
    rw [← heq, String.toList_ofList]
  subst htoken
  obtain rfl | hprefix := prefix_of_splitBy_eq_cons htokens
  · exact hwhole rfl
  · refine hbelow ?_
    obtain ⟨more, rfl⟩ := hprefix
    exact ⟨more, by simp⟩

/-- What a reference finds is not changed by a path that is put behind the others, unless the
reference asks for the paths. -/
theorem find?_withPath {reference : String} (h : AvoidsPaths reference) (tree : Json)
    (path : String) (item : Json) :
    find? (tree.withPath path item) reference = find? tree reference := by
  obtain ⟨cs, rfl⟩ : ∃ cs, reference = String.ofList cs := ⟨_, String.ofList_toList.symm⟩
  unfold find?
  split
  · rename_i hroot
    rw [String.toList_ofList] at hroot
    exact absurd (hroot ▸ rfl) h.1
  · rename_i rest hrest
    rw [String.toList_ofList] at hrest
    subst hrest
    cases htokens : Text.splitBy (· == '/') rest with
    | nil => exact absurd htokens (Text.splitBy_ne_nil _ _)
    | cons token tokens =>
      have hkey := h.unescape_ne htokens
      cases hpaths : (tree.get? "paths").bind Json.object? with
      | none => simp [Json.withPath, hpaths]
      | some paths =>
        obtain ⟨fields, rfl, -, heq⟩ := Json.exists_withPath_eq hpaths path item
        have hget := Json.get?_withPath_of_ne hkey (.object fields) path item
        rw [heq] at hget ⊢
        simp only [walk?, stepOf?, Site.root, Site.step?, Json.step?, Option.bind_eq_bind,
          Option.bind_some, hget]
  · rfl

end Pointer

/-- No reference in a tree asks for the root or the paths. -/
def Json.AvoidsPaths (tree : Json) : Prop :=
  ∀ site ∈ tree.sites, ∀ reference ∈ site.reference?, Pointer.AvoidsPaths reference

instance (tree : Json) : Decidable tree.AvoidsPaths :=
  inferInstanceAs (Decidable (∀ site ∈ tree.sites, _))

/-! ## Documents -/

namespace Document

/-- What is found from the sites of a document is found in another one as well, which is at least
as large. -/
structure FoundIn (document other : Document) : Prop where
  size : document.tree.nodeCount ≤ other.tree.nodeCount
  finds : ∀ site ∈ document.tree.sites, ∀ reference, site.reference? = some reference →
    Pointer.find? other.tree reference = Pointer.find? document.tree reference

/-- The other document has one more path, and nothing else is different for a reader. -/
structure AppendsPath (document other : Document) : Prop extends FoundIn document other where
  paths : ∃ path site, other.paths = document.paths ++ [(path, site)]
  schemas : other.schemas = document.schemas
  info : other.info = document.info

variable {document other : Document}

namespace FoundIn

variable (h : document.FoundIn other)
include h

theorem follow_eq (hops : Nat) {site : Site} (hsite : site ∈ document.tree.sites) :
    Pointer.follow other.tree hops site = Pointer.follow document.tree hops site := by
  induction hops generalizing site with
  | zero => rfl
  | succ hops ih =>
    unfold Pointer.follow
    cases hreference : site.reference? with
    | none => rfl
    | some reference =>
      dsimp only
      rw [h.finds site hsite reference hreference]
      cases hfind : Pointer.find? document.tree reference with
      | none => rfl
      | some target => exact ih (Pointer.mem_of_find? hfind)

theorem resolve_eq {site : Site} (hsite : site ∈ document.tree.sites) :
    other.resolve site = document.resolve site := by
  unfold resolve Pointer.resolve
  rw [h.follow_eq _ hsite]

theorem pathOperations_eq (path : String) {site : Site} (hsite : site ∈ document.tree.sites) :
    other.pathOperations path site = document.pathOperations path site := by
  unfold pathOperations Pointer.resolve
  rw [h.follow_eq _ hsite]

end FoundIn

/-- The operations of the paths that were there come first. -/
theorem AppendsPath.exists_operations_eq (h : document.AppendsPath other)
    (hpaths : document.PathsInTree) {operations operations' : List OperationSite}
    (hown : document.operations = .ok operations) (hother : other.operations = .ok operations') :
    ∃ more, operations' = operations ++ more := by
  obtain ⟨path, site, hpath⟩ := h.paths
  obtain ⟨groups, hgroups, rfl⟩ := Outcomes.exists_of_map_eq_ok hown
  obtain ⟨groups', hgroups', rfl⟩ := Outcomes.exists_of_map_eq_ok hother
  have hsame : (document.paths.mapM fun entry => other.pathOperations entry.1 entry.2) =
      .ok groups := by
    rw [← hgroups]
    exact Outcomes.mapM_congr fun entry hentry =>
      h.toFoundIn.pathOperations_eq entry.1 (hpaths entry hentry)
  rw [hpath, List.mapM_append, hsame] at hgroups'
  obtain ⟨last, -, hlast⟩ := Outcomes.exists_of_map_eq_ok hgroups'
  exact ⟨last.flatten, by rw [← hlast, List.flatten_append]⟩

/-- A document has an object of paths. -/
theorem exists_paths_of_ofTree {tree : Json} (h : ofTree tree = .ok document) :
    ∃ paths, tree.get? "paths" = some (.object paths) := by
  unfold ofTree at h
  split at h
  · simp at h
  · split at h
    · simp at h
    · split at h
      · simp at h
      · rename_i hpaths
        obtain ⟨below, hbelow, hmembers⟩ := Option.bind_eq_some_iff.1 hpaths
        obtain ⟨node, hnode, rfl⟩ := Option.map_eq_some_iff.1 hbelow
        cases node with
        | object paths => exact ⟨paths, hnode⟩
        | _ => simp [Site.members?, Json.object?] at hmembers

/-- The members of the paths of a tree. -/
theorem membersAt_paths {tree : Json} {paths : Entries Json}
    (h : tree.get? "paths" = some (.object paths)) :
    (Site.root tree).membersAt "paths" =
      paths.map fun (key, node) => (key, ⟨[.key "paths", .key key], node⟩) := by
  simp [Site.membersAt, Site.get?, Site.step?, Site.root, Json.step?, h, Site.members?,
    Json.object?]

/-- A path that is put behind the others is all that is different, when no reference asks for the
paths. -/
theorem appendsPath_of_withPath {tree item : Json} {path : String}
    (havoid : tree.AvoidsPaths) (hown : ofTree tree = .ok document)
    (hother : ofTree (tree.withPath path item) = .ok other) : document.AppendsPath other := by
  obtain ⟨paths, hpaths⟩ := exists_paths_of_ofTree hown
  obtain rfl := eq_of_ofTree hown
  obtain rfl := eq_of_ofTree hother
  have hget : ∀ key, key ≠ "paths" →
      (Site.root (tree.withPath path item)).get? key = (Site.root tree).get? key := by
    intro key hkey
    have hnode := Json.get?_withPath_of_ne hkey tree path item
    simp only [Site.get?, Site.step?, Site.root, Json.step?, hnode]
  exact {
    size := Json.nodeCount_le_withPath tree path item
    finds := fun site hsite reference hreference =>
      Pointer.find?_withPath (havoid site hsite reference hreference) tree path item
    paths := by
      have hobject : (tree.get? "paths").bind Json.object? = some paths := by
        rw [hpaths]
        rfl
      refine ⟨path, ⟨[.key "paths", .key path], item⟩, ?_⟩
      dsimp only
      rw [membersAt_paths hpaths, membersAt_paths (Json.get?_withPath_same hobject path item),
        List.map_append]
      rfl
    schemas := by
      simp only [schemas, shared, root, hget _ (by decide : "components" ≠ "paths"),
        hget _ (by decide : "definitions" ≠ "paths"), hget _ (by decide : "parameters" ≠ "paths"),
        hget _ (by decide : "responses" ≠ "paths")]
    info := by
      simp only [info, Json.get?_withPath_of_ne (by decide : "info" ≠ "paths")] }

end Document

end ServantGen
