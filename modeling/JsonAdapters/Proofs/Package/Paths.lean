import JsonAdapters.Package.FileTree
import Mathlib.Data.List.DropRight

/-!
# Parts of paths

A path is the text of its parts with slashes between them. Before the parts that can be taken off
stands its lead: the root of an absolute path, or a dot that starts a relative one. The directory of
a path has the parts behind the lead up to the last one, without those at its end that lead nowhere.

## Main definitions

* `FilePath.rest`: what stands behind the lead.
* `FilePath.EndsWithName`: the last part of a path leads somewhere.
* `FileTree.step?`: where a part of a path leads.
* `FileTree.LeadsTo`: a path leads to the place of a file.

## Main statements

* `FilePath.starts_with_directory`: a path starts with its directory.
* `FilePath.text_directory_child`: a name that is put behind a path is put into that directory.
* `FileTree.LeadsTo.endsWithName`: the path of a file ends with a name.
-/

namespace JsonAdapters.FilePath

theorem mk_text (p : FilePath) : ⟨p.text⟩ = p := rfl

/-! ## Splitting and joining -/

/-- Paths are split at slashes as lists are split at an element. -/
theorem splitSlashes_eq (cs : List Char) : splitSlashes cs = cs.splitOn '/' := by
  induction cs with
  | nil => rfl
  | cons c cs ih =>
    rw [splitSlashes, ih, List.splitOn_cons_eq_if_modifyHead]
    by_cases h : c = '/'
    · simp [h]
    · rw [if_neg h, if_neg (by simpa using h)]
      cases hs : cs.splitOn '/' with
      | nil => exact absurd hs (List.splitOn_ne_nil _ _)
      | cons p ps => rfl

/-- Parts of a path are the texts between its slashes. -/
theorem parts_eq (p : FilePath) : p.parts = (p.text.toList.splitOn '/').map String.ofList := by
  rw [parts, splitSlashes_eq]

theorem parts_ne_nil (p : FilePath) : p.parts ≠ [] := by
  simp [parts_eq]

/-- Parts with slashes between them make up the path again. -/
theorem intercalate_parts (p : FilePath) : "/".intercalate p.parts = p.text := by
  apply String.toList_inj.1
  rw [String.toList_intercalate, parts_eq, List.map_map]
  simp

/-- Parts that are joined with slashes are the parts of the path, where they have no slash. -/
theorem parts_intercalate {ps : List String} (hne : ps ≠ []) (h : ∀ x ∈ ps, '/' ∉ x.toList) :
    parts ⟨"/".intercalate ps⟩ = ps := by
  have hs : (['/'].intercalate (ps.map String.toList)).splitOn '/' = ps.map String.toList :=
    List.splitOn_intercalate '/' (by simpa using h) (by simpa using hne)
  rw [parts_eq, String.toList_intercalate]
  simp [hs]

theorem parts_of_name {name : String} (h : '/' ∉ name.toList) : parts ⟨name⟩ = [name] := by
  have hone : parts ⟨"/".intercalate [name]⟩ = [name] :=
    parts_intercalate (by simp) (by simpa using h)
  rwa [String.intercalate_singleton] at hone

/-- Parts of two paths with a slash between them are the parts of the first and of the second. -/
theorem parts_slash (a b : String) : parts ⟨a ++ "/" ++ b⟩ = parts ⟨a⟩ ++ parts ⟨b⟩ := by
  simp only [parts_eq, String.toList_append, List.append_assoc]
  rw [← List.map_append, ← List.splitOn_append_cons_self]
  rfl

/-- The last part stands behind each slash. -/
theorem getLast?_parts {p : FilePath} {a b : String} (h : p.text = a ++ "/" ++ b) :
    p.parts.getLast? = (parts ⟨b⟩).getLast? := by
  rw [← mk_text p, h, parts_slash, List.getLast?_append_of_ne_nil _ (parts_ne_nil _)]

/-- A path of fewer parts is a start of the path. -/
theorem intercalate_starts {ps qs : List String} (h : ps <+: qs) :
    ∃ b, "/".intercalate qs = "/".intercalate ps ++ b := by
  obtain ⟨rs, rfl⟩ := h
  by_cases hps : ps = []
  · exact ⟨_, by rw [hps, String.intercalate_nil, String.empty_append]⟩
  · by_cases hrs : rs = []
    · exact ⟨"", by rw [hrs, List.append_nil, String.append_empty]⟩
    · exact ⟨_, by rw [String.intercalate_append_of_ne_nil hps hrs, String.append_assoc]⟩

/-! ## Leads -/

/-- The path behind its lead. -/
def rest (p : FilePath) : FilePath := ⟨String.ofList (p.text.toList.drop p.lead.length)⟩

/-- Each lead is a start of its path. -/
theorem lead_starts (p : FilePath) : p.lead.toList <+: p.text.toList := by
  rw [lead]
  split
  · next habs =>
    obtain ⟨cs, hcs⟩ := List.head?_eq_some_iff.1 (of_decide_eq_true habs)
    exact ⟨cs, hcs.symm⟩
  · split
    · next hdot =>
      obtain ⟨ps, hps⟩ := List.head?_eq_some_iff.1 hdot
      have hstarts : ["."] <+: "." :: ps := ⟨ps, rfl⟩
      obtain ⟨b, hb⟩ := intercalate_starts hstarts
      rw [← intercalate_parts p, hps, hb, String.intercalate_singleton, String.toList_append]
      exact List.prefix_append _ _
    · exact List.nil_prefix

/-- A path is its lead and what follows. -/
theorem lead_append_rest (p : FilePath) : p.lead ++ p.rest.text = p.text := by
  obtain ⟨cs, hcs⟩ := p.lead_starts
  apply String.toList_inj.1
  rw [rest, String.toList_append, String.toList_ofList, ← hcs, ← String.length_toList,
    List.drop_left]

/-- Only idle parts at the end of a path are not in its body. -/
theorem body_eq (p : FilePath) : p.body = p.rest.parts.rdropWhile isIdle := by
  rw [body, rest, parts, String.toList_ofList, List.rdropWhile]

/-- The directory of a path, from the parts behind its lead. -/
theorem text_directory_of_body {p : FilePath} {qs : List String} {x : String}
    (h : p.body = qs ++ [x]) :
    p.directory.text = p.lead ++ "/".intercalate (qs.rdropWhile isIdle) := by
  simp [directory, parent?, h, List.rdropWhile]

/-- A path starts with its directory. -/
theorem starts_with_directory (p : FilePath) : ∃ b, p.text = p.directory.text ++ b := by
  rcases List.eq_nil_or_concat' p.body with hnil | ⟨qs, x, hbody⟩
  · have hdir : p.directory.text = "" := by
      rw [directory, parent?, hnil]
      by_cases hdot : p.lead = "." <;> simp [hdot]
    exact ⟨p.text, by rw [hdir, String.empty_append]⟩
  -- idle parts before the last name are dropped too, so its parts are a start of all parts
  · have hparts : qs.rdropWhile isIdle <+: p.rest.parts := by
      refine (List.rdropWhile_prefix _ _).trans ((List.prefix_append qs [x]).trans ?_)
      rw [← hbody, body_eq]
      exact List.rdropWhile_prefix _ _
    obtain ⟨b, hb⟩ := intercalate_starts hparts
    refine ⟨b, ?_⟩
    rw [text_directory_of_body hbody, String.append_assoc, ← hb, intercalate_parts,
      lead_append_rest]

/-! ## Paths that end with a name -/

/-- The last part of the path is a name, or leads up. -/
def EndsWithName (p : FilePath) : Prop := ∀ x ∈ p.parts.getLast?, ¬ isIdle x

section EndsWithName

variable {p : FilePath}

/-- An empty path ends with no name. -/
theorem EndsWithName.text_ne (h : p.EndsWithName) : p.text ≠ "" := by
  intro hp
  have hparts : p.parts = [""] := by
    rw [← mk_text p, hp]
    exact parts_of_name (by simp)
  exact h "" (by simp [hparts]) rfl

/-- A path that ends with a name does not end with a slash. -/
theorem EndsWithName.no_slash (h : p.EndsWithName) (t : String) : p.text ≠ t ++ "/" := by
  intro ht
  have hlast : p.parts.getLast? = (parts ⟨""⟩).getLast? :=
    getLast?_parts (a := t) (by rw [ht, String.append_empty])
  exact h "" (by rw [hlast]; rfl) rfl

/-- The lead does not reach into the last part, if that is a name. -/
theorem EndsWithName.getLast?_rest (h : p.EndsWithName) :
    p.rest.parts.getLast? = p.parts.getLast? := by
  have htext := p.lead_append_rest
  by_cases habs : p.isAbsolute
  · have hlead : p.lead = "" ++ "/" := by rw [lead, if_pos habs, String.empty_append]
    rw [hlead] at htext
    rw [getLast?_parts htext.symm, mk_text]
  · by_cases hdot : p.parts.head? = some "."
    · have hlead : p.lead = "." := by rw [lead, if_neg habs, if_pos hdot]
      obtain ⟨ps, hps⟩ := List.head?_eq_some_iff.1 hdot
      have hne : ps ≠ [] := by
        rintro rfl
        exact h "." (by simp [hps]) rfl
      -- A slash follows the dot, so that the last part stands behind both.
      have hslash : p.text = "." ++ "/" ++ "/".intercalate ps := by
        rw [← intercalate_parts p, hps, String.intercalate_cons_of_ne_nil hne]
      have hrest : p.rest.text = "" ++ "/" ++ "/".intercalate ps := by
        rw [hlead, hslash, String.append_assoc] at htext
        rw [String.append_right_inj] at htext
        rw [htext, String.empty_append]
      rw [getLast?_parts hslash, getLast?_parts hrest]
    · have hlead : p.lead = "" := by rw [lead, if_neg habs, if_neg hdot]
      rw [hlead, String.empty_append] at htext
      rw [← mk_text p.rest, htext]

/-- A path that ends with a name has all its parts in its body. -/
theorem EndsWithName.body_eq (h : p.EndsWithName) : p.body = p.rest.parts := by
  obtain ⟨qs, x, hp⟩ := (List.eq_nil_or_concat' p.rest.parts).resolve_left (parts_ne_nil _)
  have hx : ¬ isIdle x := h x (by rw [← h.getLast?_rest, hp, List.getLast?_concat]; rfl)
  rw [FilePath.body_eq, hp, List.rdropWhile_concat_neg _ _ _ hx]

/-- The last part of a body is the name with which the path ends. -/
theorem EndsWithName.getLast?_body (h : p.EndsWithName) :
    p.body.getLast? = p.parts.getLast? := by
  rw [h.body_eq, h.getLast?_rest]

end EndsWithName

/-! ## Joining -/

variable {a p q : FilePath}

/-- A path that is put behind another one follows a slash, unless it stands alone. -/
theorem join_cases (p q : FilePath) : ((q.isAbsolute ∨ p.text = "") ∧ p.join q = q) ∨
    ∃ t, (p.text = t ∨ p.text = t ++ "/") ∧ p.text ≠ "" ∧ (p.join q).text = t ++ "/" ++ q.text := by
  by_cases halone : q.isAbsolute ∨ p.text = ""
  · exact .inl ⟨halone, if_pos (by simpa using halone)⟩
  · obtain ⟨hq, hp⟩ := not_or.1 halone
    rw [join, if_neg (by simpa using halone)]
    by_cases hlast : p.text.toList.getLast? = some '/'
    · obtain ⟨cs, hcs⟩ := List.getLast?_eq_some_iff.1 hlast
      have ht : p.text = String.ofList cs ++ "/" := String.toList_inj.1 (by simp [hcs])
      exact .inr ⟨_, .inr ht, hp, by rw [if_pos hlast, ht]⟩
    · exact .inr ⟨_, .inl rfl, hp, by rw [if_neg hlast]⟩

theorem isAbsolute_append {s t : String} (h : s ≠ "") :
    isAbsolute ⟨s ++ t⟩ = isAbsolute ⟨s⟩ := by
  have hne : s.toList ≠ [] := by simpa using h
  simp [isAbsolute, List.head?_append_of_ne_nil _ hne]

/-- A path that is put behind another one leaves that as it is, unless it is absolute. -/
theorem join_starts (p : FilePath) (hq : ¬ q.isAbsolute) :
    ∃ b, (p.join q).text = p.text ++ (b ++ q.text) := by
  rcases join_cases p q with ⟨habs | hp, hj⟩ | ⟨t, ht | ht, -, hj⟩
  · exact absurd habs hq
  · exact ⟨"", by rw [hj, hp, String.empty_append, String.empty_append]⟩
  · exact ⟨"/", by rw [hj, ht, String.append_assoc]⟩
  · exact ⟨"", by rw [hj, ht, String.empty_append]⟩

/-- Joining relative paths only adds at the end. -/
theorem joins_start {qs : List FilePath} (h : ∀ q ∈ qs, ¬ q.isAbsolute) (p : FilePath) :
    ∃ b, (qs.foldl join p).text = p.text ++ b := by
  induction qs generalizing p with
  | nil => exact ⟨"", String.append_empty.symm⟩
  | cons q qs ih =>
    obtain ⟨b, hb⟩ := ih (fun q' hq' => h q' (List.mem_cons_of_mem q hq')) (p.join q)
    obtain ⟨c, hc⟩ := join_starts p (h q List.mem_cons_self)
    exact ⟨c ++ q.text ++ b, by rw [List.foldl_cons, hb, hc, String.append_assoc]⟩

/-- A relative path is joined with one slash. -/
theorem EndsWithName.text_join (h : p.EndsWithName) (hq : ¬ q.isAbsolute) :
    (p.join q).text = p.text ++ "/" ++ q.text := by
  rcases join_cases p q with ⟨habs | hempty, -⟩ | ⟨t, ht | ht, -, hj⟩
  · exact absurd habs hq
  · exact absurd hempty h.text_ne
  · rw [hj, ht]
  · exact absurd ht (h.no_slash t)

/-- A joined path ends as the path that was joined. -/
theorem getLast?_parts_join (p q : FilePath) : (p.join q).parts.getLast? = q.parts.getLast? := by
  rcases join_cases p q with ⟨-, hj⟩ | ⟨t, -, -, hj⟩
  · rw [hj]
  · exact getLast?_parts hj

/-- Names are relative. -/
theorem isAbsolute_of_no_slash {name : String} (h : '/' ∉ name.toList) :
    ¬ isAbsolute ⟨name⟩ := by
  intro habs
  obtain ⟨cs, hcs⟩ := List.head?_eq_some_iff.1 (of_decide_eq_true habs)
  exact h (by simp [hcs])

section Child

variable {name : String} (hslash : '/' ∉ name.toList) (hidle : ¬ isIdle name)
include hslash hidle

/-- A child ends with its name. -/
theorem endsWithName_child (p : FilePath) : (p.child name).EndsWithName := by
  intro x hx
  rw [child, getLast?_parts_join, parts_of_name hslash] at hx
  obtain rfl : name = x := by simpa using hx
  exact hidle

/-- With a name behind it, a path gets longer. -/
theorem length_lt_child (p : FilePath) : p.text.length < (p.child name).text.length := by
  have hname : name ≠ "" := by
    rintro rfl
    exact hidle rfl
  obtain ⟨b, hb⟩ := join_starts p (isAbsolute_of_no_slash hslash)
  have hpos : 0 < name.length := Nat.pos_of_ne_zero fun h => hname (String.length_eq_zero_iff.1 h)
  simp only [child, hb, String.length_append]
  omega

/-- A name that is put behind a path is put into that directory. -/
theorem text_directory_child (hp : p.EndsWithName) : (p.child name).directory.text = p.text := by
  have htext : (p.child name).text = p.text ++ "/" ++ name :=
    hp.text_join (isAbsolute_of_no_slash hslash)
  have hpath : p.child name = ⟨p.text ++ "/" ++ name⟩ := by rw [← htext]
  -- a name adds nothing to the lead, which depends on the start of the path only
  have hlead : (p.child name).lead = p.lead := by
    have habs : (p.child name).isAbsolute = p.isAbsolute := by
      rw [hpath, String.append_assoc, isAbsolute_append hp.text_ne]
    have hhead : (p.child name).parts.head? = p.parts.head? := by
      rw [hpath, parts_slash, List.head?_append_of_ne_nil _ (parts_ne_nil _)]
    rw [lead, lead, habs, hhead]
  have hrest : (p.child name).rest = ⟨p.rest.text ++ "/" ++ name⟩ := by
    have hboth := (p.child name).lead_append_rest
    rw [htext, hlead, ← p.lead_append_rest, String.append_assoc, String.append_assoc,
      String.append_right_inj, ← String.append_assoc] at hboth
    rw [← hboth]
  have hbody : (p.child name).body = p.rest.parts ++ [name] := by
    rw [(endsWithName_child hslash hidle p).body_eq, hrest, parts_slash, parts_of_name hslash]
  rw [text_directory_of_body hbody, hlead, ← body_eq, hp.body_eq, intercalate_parts,
    lead_append_rest]

end Child

end JsonAdapters.FilePath

namespace JsonAdapters.FileTree

open FilePath

variable {t : FileTree} {p q : FilePath} {place place' : Place}

/-! ## Paths of files -/

/-- The place to which a part of a path leads from another place. -/
def step? (place : Place) (part : String) : Option Place :=
  if isIdle part then some place
  else if part = ".." then some place.dropLast
  else if maxName < part.utf8ByteSize then none
  else some (place ++ [part])

/-- A part is looked up in a directory. -/
theorem follow_cons_ok {part : String} {rest : List String} :
    t.follow place (part :: rest) = .ok place' ↔
      t.get? place = some .directory ∧ ∃ next, step? place part = some next ∧
        t.follow next rest = .ok place' := by
  rw [follow, step?]
  cases t.get? place with
  | none => simp
  | some n =>
    cases n with
    | file bytes => simp
    | directory =>
      dsimp only
      split_ifs <;> simp

theorem last_of_follow {parts : List String} {bytes : List UInt8}
    (h : t.follow place parts = .ok place') (hfile : t.get? place' = some (.file bytes)) :
    ∀ x ∈ parts.getLast?, ¬ isIdle x := by
  induction parts generalizing place with
  | nil => simp
  | cons part rest ih =>
    obtain ⟨hdir, next, hstep, hrest⟩ := follow_cons_ok.1 h
    by_cases hnil : rest = []
    · subst hnil
      obtain rfl : next = place' := by simpa [follow] using hrest
      intro x hx hi
      obtain rfl : part = x := by simpa using hx
      -- A part that leads nowhere would leave the walk in a directory.
      rw [step?, if_pos hi] at hstep
      rw [← Option.some.inj hstep, hdir] at hfile
      cases hfile
    · obtain ⟨y, ys, rfl⟩ := List.exists_cons_of_ne_nil hnil
      simpa using ih hrest

/-- A path leads to the place of a file. -/
def LeadsTo (t : FileTree) (p : FilePath) (place : Place) : Prop :=
  t.resolve p = .ok place ∧ ∃ bytes, t.get? place = some (.file bytes)

/-- A path to a file leads to a place. -/
theorem leadsTo_of_isFile (h : t.isFile p) : ∃ place, t.LeadsTo p place := by
  rw [isFile] at h
  cases hr : t.resolve p with
  | error e => simp [hr, Except.toOption] at h
  | ok place =>
    simp only [hr, Except.toOption, Option.bind_some] at h
    split at h
    case h_1 bytes hbytes => exact ⟨place, hr, bytes, hbytes⟩
    case h_2 => cases h

/-- A path to a text leads to a place. -/
theorem leadsTo_of_readText {text : String} (h : t.readText p = .ok text) :
    ∃ place, t.LeadsTo p place := by
  have hread : ∃ bytes, t.read p = .ok bytes := by
    cases hr : t.read p with
    | error e => simp [readText, hr, bind, Except.bind] at h
    | ok bytes => exact ⟨bytes, rfl⟩
  obtain ⟨bytes, hread⟩ := hread
  cases hr : t.resolve p with
  | error e => simp [read, hr, bind, Except.bind] at hread
  | ok place =>
    simp only [read, hr, bind, Except.bind] at hread
    split at hread
    case h_1 => cases hread
    case h_2 => cases hread
    case h_3 file hfile => exact ⟨place, hr, file, hfile⟩

namespace LeadsTo

/-- Such a path is short enough, and is followed from its start to the place. -/
theorem resolves (h : t.LeadsTo p place) :
    p.text.utf8ByteSize ≤ maxPath ∧ t.follow (t.start p) p.parts = .ok place := by
  have hr := h.1
  rw [resolve] at hr
  by_cases hlong : maxPath < p.text.utf8ByteSize
  · rw [if_pos hlong] at hr
    cases hr
  · rw [if_neg hlong] at hr
    by_cases hnone : p.text = ""
    · rw [if_pos hnone] at hr
      cases hr
    · rw [if_neg hnone] at hr
      exact ⟨not_lt.1 hlong, hr⟩

/-- There are no files but those of the tree. -/
theorem mem_nodes (h : t.LeadsTo p place) : place ∈ t.nodes.map (·.1) := by
  obtain ⟨bytes, hfile⟩ := h.2
  rw [get?] at hfile
  split at hfile
  · cases hfile
  · obtain ⟨before, after, hnodes, -⟩ := List.lookup_eq_some_iff.1 hfile
    simp [hnodes]

/-- A path to a file ends with a name. -/
theorem endsWithName (h : t.LeadsTo p place) : p.EndsWithName := by
  obtain ⟨bytes, hfile⟩ := h.2
  exact last_of_follow h.resolves.2 hfile

end LeadsTo

/-- The path of a file that is put together ends with the name that was put last. -/
theorem LeadsTo.fileName?_child {name : String} (h : t.LeadsTo (p.child name) place)
    (hslash : '/' ∉ name.toList) (hup : name ≠ "..") : (p.child name).fileName? = some name := by
  have hparts : parts ⟨name⟩ = [name] := parts_of_name hslash
  have hlast : (p.child name).body.getLast? = some name := by
    rw [h.endsWithName.getLast?_body, child, getLast?_parts_join, hparts]
    rfl
  rw [fileName?, hlast]
  split
  case h_1 h => cases h
  case h_2 h => exact absurd (Option.some.inj h) hup
  case h_3 h => rw [h]

/-- Files at one place have one text. -/
theorem readText_congr (h : t.resolve p = t.resolve q) : t.readText p = t.readText q := by
  simp only [readText, read, h]

end JsonAdapters.FileTree
