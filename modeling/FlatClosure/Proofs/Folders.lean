/-
Paths, and what file operations change.

A path leads from its start through directories to a place. A cleaned path leads to the
same place, so what is written under a joined path stands in the directory that it was
joined to.

* `Folder.IsName`: names of entries of a directory.
* `Folder.LeadsTo`: a path leads to a directory; `Folder.walk_cleanComponents`: so does the
  cleaned one; `Folder.LeadsTo.eq_of_openWrite_join`: the place of a file in a directory.
* `Folder.SameOff`: folders that differ at some places at most, with `sameOff_put`,
  `sameOff_putDirs` and `LeadsTo.sameOff_write_join`.
* `Folder.read_put_of_openWrite`: what is written to a path is read from it.
* `Folder.AddsIn`, `Folder.makeTemp_cases`: a new directory for temporary files;
  `Folder.AddsIn.node?_eq`: it leaves the working directory alone if it is elsewhere.
-/
import FlatClosure.Files.Folder
import FlatClosure.Proofs.Basic
import FlatClosure.Proofs.MintedNames

namespace FlatClosure

namespace Folder

/-- A name that an entry of a directory can have. -/
structure IsName (name : Text) : Prop where
  isDirStep_eq : isDirStep name = false
  notMem_slash : Path.slash ∉ name

lemma IsName.ne {name : Text} (h : IsName name) :
    name ≠ [] ∧ name ≠ ("." : Text) ∧ name ≠ (".." : Text) := by
  simpa [isDirStep, and_assoc] using h.isDirStep_eq

/-- A name with a number behind it is a name. -/
lemma IsName.append_ofNat {stem : Text} (h : IsName stem) (n : Nat) :
    IsName (stem ++ Text.ofNat n) := by
  have hlast : ∀ b, (stem ++ Text.ofNat n).getLast? = some b → Text.isDigit b := by
    intro b hb
    rw [List.getLast?_append_of_ne_nil _ (Text.ofNat_ne_nil n)] at hb
    exact Text.isDigit_of_mem_ofNat (List.mem_of_getLast? hb)
  refine ⟨?_, fun hslash => ?_⟩
  · -- a step to a directory is empty or ends in a dot
    have hempty : stem ++ Text.ofNat n ≠ [] := by simp [h.ne.1]
    have hdot : stem ++ Text.ofNat n ≠ ("." : Text) := fun heq =>
      absurd (hlast 46 (heq ▸ rfl)) (by decide)
    have hdots : stem ++ Text.ofNat n ≠ (".." : Text) := fun heq =>
      absurd (hlast 46 (heq ▸ rfl)) (by decide)
    simp [isDirStep, hempty, hdot, hdots]
  · rcases List.mem_append.mp hslash with hslash | hslash
    · exact h.notMem_slash hslash
    · exact absurd (Text.isDigit_of_mem_ofNat hslash) (by decide)

end Folder

/-! ### Paths -/

namespace Path

open Folder (IsName)

variable {rooted : Bool} {dir file name path : Text} {done cs front : List Text}

lemma components_append_cons (dir file : Text) :
    components (dir ++ slash :: file) = components dir ++ components file :=
  Text.splitOn_append_cons slash dir file

lemma components_name (h : IsName name) : components name = [name] :=
  Text.splitOn_of_notMem h.notMem_slash

lemma components_append_name (h : IsName name) (dir : Text) :
    components (dir ++ "/" ++ name) = components dir ++ [name] := by
  rw [List.append_assoc, ← components_name h]
  exact components_append_cons dir name

/-- A path whose last component is not empty has no slash at its end. -/
lemma named_eq_components (h : components path = front ++ [name]) (hname : name ≠ []) :
    named path = components path := by
  simp [named, h, hname]

lemma isRooted_append (hdir : dir ≠ []) (file : Text) : isRooted (dir ++ file) = isRooted dir := by
  rw [isRooted, isRooted, List.head?_append_of_ne_nil _ hdir]

/-- A path that starts at the root has an empty component in front. -/
lemma exists_of_isRooted (h : isRooted path) : ∃ rest, components path = [] :: rest := by
  cases path with
  | nil => exact absurd h (by decide)
  | cons b rest =>
      obtain rfl : b = slash := by simpa [isRooted] using h
      exact ⟨components rest, components_append_cons [] rest⟩

lemma inside_append (dir stem rest : Text) :
    inside dir stem ++ rest = inside dir (stem ++ rest) := by
  rw [inside, inside]
  split_ifs <;> simp

/-! #### Cleaning -/

lemma cleanComponents_append (rooted : Bool) (done cs cs' : List Text) :
    cleanComponents rooted done (cs ++ cs') =
      cleanComponents rooted (cleanComponents rooted done cs) cs' := by
  fun_induction cleanComponents rooted done cs <;> simp_all [cleanComponents]

lemma cleanComponents_name (h : IsName name) :
    cleanComponents rooted done [name] = name :: done := by
  obtain ⟨hempty, hdot, hdots⟩ := h.ne
  simp [cleanComponents, hempty, hdot, hdots]

/-- The components of a cleaned path are some of those before, and none is empty. -/
lemma of_mem_cleanComponents {P : Text → Prop} (hdone : ∀ c ∈ done, P c)
    (hcs : ∀ c ∈ cs, c ≠ [] → P c) : ∀ c ∈ cleanComponents rooted done cs, P c := by
  fun_induction cleanComponents rooted done cs with
  | case1 done => exact hdone
  | case2 done c rest hskip ih => exact ih hdone (List.forall_mem_cons.mp hcs).2
  | case3 rest hne ih =>
      obtain ⟨hdots, hrest⟩ := List.forall_mem_cons.mp hcs
      refine ih (fun c hc => ?_) hrest
      split_ifs at hc
      · exact absurd hc List.not_mem_nil
      · rw [List.mem_singleton.mp hc]
        exact hdots (by decide)
  | case4 rest before hne ih =>
      obtain ⟨hdots, hrest⟩ := List.forall_mem_cons.mp hcs
      exact ih (List.forall_mem_cons.mpr ⟨hdots (by decide), hdone⟩) hrest
  | case5 rest last before hlast hne ih =>
      exact ih (List.forall_mem_cons.mp hdone).2 (List.forall_mem_cons.mp hcs).2
  | case6 done c rest hskip hdots ih =>
      obtain ⟨hc, hrest⟩ := List.forall_mem_cons.mp hcs
      exact ih (List.forall_mem_cons.mpr ⟨hc (not_or.mp hskip).1, hdone⟩) hrest

/-- The components of a joined path: those of the directory, cleaned, and the name. -/
lemma components_join (hdir : dir ≠ []) (h : IsName name) :
    components (join dir name) = (if isRooted dir then [[]] else []) ++
        (cleanComponents (isRooted dir) [] (components dir)).reverse ++ [name] ∧
      isRooted (join dir name) = isRooted dir := by
  set kept := (cleanComponents (isRooted dir) [] (components dir)).reverse ++ [name] with hkept
  have hall : ∀ c ∈ kept, c ≠ [] ∧ slash ∉ c := by
    intro c hc
    rcases List.mem_append.mp hc with hc | hc
    · refine of_mem_cleanComponents (P := fun c => c ≠ [] ∧ slash ∉ c) (by simp) ?_ c
        (List.mem_reverse.mp hc)
      exact fun c hc hne => ⟨hne, Text.notMem_of_mem_splitOn hc⟩
    · rw [List.mem_singleton.mp hc]
      exact ⟨h.ne.1, h.notMem_slash⟩
  have hbody : components (Text.join "/" kept) = kept :=
    Text.splitOn_join (by simp [hkept]) fun c hc => (hall c hc).2
  have hne : Text.join "/" kept ≠ [] := by
    intro hnil
    rw [hnil] at hbody
    exact (hall [] (hbody ▸ List.mem_cons_self)).1 rfl
  have hclean : join dir name =
      if isRooted dir then "/" ++ Text.join "/" kept else Text.join "/" kept := by
    rw [join, if_neg (by simpa using hdir), clean, List.append_assoc, isRooted_append hdir,
      ← List.append_assoc, components_append_name h, cleanComponents_append,
      cleanComponents_name h, List.reverse_cons, ← hkept]
    simp [hne]
  rw [hclean, List.append_assoc, ← hkept]
  split_ifs with hrooted
  · have hslash : components ("/" ++ Text.join "/" kept) =
        [[]] ++ components (Text.join "/" kept) := components_append_cons [] _
    exact ⟨by rw [hslash, hbody], hrooted ▸ rfl⟩
  · refine ⟨hbody, ?_⟩
    rw [Bool.not_eq_true] at hrooted
    rw [hrooted, Bool.eq_false_iff]
    intro hroot
    obtain ⟨rest, hrest⟩ := exists_of_isRooted hroot
    exact (hall [] (hbody ▸ hrest ▸ List.mem_cons_self)).1 rfl

end Path

namespace Folder

variable {folder before after made : Folder} {start place p q : Place}
  {path dir name content : Text}

/-! ### What stands at a place -/

lemma node?_eq_dir_iff : folder.node? p = some .dir ↔ p.isEmpty || folder.dirs.contains p := by
  rw [node?]
  split_ifs with hdir
  · exact ⟨fun _ => hdir, fun _ => rfl⟩
  · constructor
    · intro h
      obtain ⟨text, -, htext⟩ := Option.map_eq_some_iff.mp h
      cases htext
    · exact fun h => absurd h hdir

/-- The working directory and those above it are directories. -/
lemma node?_of_isPrefix_home (h : p <+: folder.home) : folder.node? p = some .dir := by
  rw [node?_eq_dir_iff]
  rcases folder.home_dirs p h with rfl | hp
  · rfl
  · simp [hp]

lemma lookup_map_replace (files : List (Place × Text)) (place p : Place) (content : Text) :
    (files.map fun f => if f.1 = place then (place, content) else f).lookup p =
      if p = place then (files.lookup p).map fun _ => content else files.lookup p := by
  induction files with
  | nil => simp
  | cons f files ih =>
      obtain ⟨q, old⟩ := f
      by_cases hp : p = q
      · subst hp
        by_cases hplace : p = place <;> simp [hplace]
      · have hbeq : (p == q) = false := beq_eq_false_iff_ne.mpr hp
        by_cases hq : q = place
        · subst hq
          simp [List.lookup_cons, hbeq, ih, hp]
        · simp [List.lookup_cons, hbeq, ih, hq]

lemma lookup_put (folder : Folder) (place p : Place) (content : Text) :
    (folder.put place content).files.lookup p =
      if p = place then some content else folder.files.lookup p := by
  by_cases hsome : (folder.files.lookup place).isSome
  · obtain ⟨old, hold⟩ := Option.isSome_iff_exists.mp hsome
    rw [put, if_pos hsome, lookup_map_replace]
    by_cases hp : p = place
    · rw [if_pos hp, if_pos hp, hp, hold, Option.map_some]
    · rw [if_neg hp, if_neg hp]
  · have hnone : folder.files.lookup place = none := Option.not_isSome_iff_eq_none.mp hsome
    rw [put, if_neg hsome, List.lookup_append]
    by_cases hp : p = place
    · rw [if_pos hp, hp, hnone, List.lookup_cons_self, Option.none_or]
    · rw [if_neg hp, List.lookup_cons, beq_eq_false_iff_ne.mpr hp, List.lookup_nil, Option.or_none]

@[simp] lemma dirs_put (folder : Folder) (place : Place) (content : Text) :
    (folder.put place content).dirs = folder.dirs := by
  rw [put]
  split_ifs <;> rfl

@[simp] lemma home_put (folder : Folder) (place : Place) (content : Text) :
    (folder.put place content).home = folder.home := by
  rw [put]
  split_ifs <;> rfl

/-- What is put at a place that is no directory stands there. -/
lemma node?_put_self (h : folder.node? place ≠ some .dir) :
    (folder.put place content).node? place = some (.file content) := by
  rw [ne_eq, node?_eq_dir_iff] at h
  rw [node?, dirs_put, if_neg h, lookup_put, if_pos rfl, Option.map_some]

lemma node?_putDirs (folder : Folder) (places : List Place) (p : Place) :
    (folder.putDirs places).node? p = if p ∈ places then some .dir else folder.node? p := by
  by_cases hp : p ∈ places
  · rw [if_pos hp, node?_eq_dir_iff]
    simp [putDirs, hp]
  · simp [node?, putDirs, hp]

/-! ### Changes -/

/-- The folders differ in what stands at the places that may have `changed` at most, and no
directory is gone. -/
structure SameOff (changed : Place → Prop) (before after : Folder) : Prop where
  home_eq : after.home = before.home
  node?_eq : ∀ p, ¬ changed p → after.node? p = before.node? p
  dir_stays : ∀ p, before.node? p = some .dir → after.node? p = some .dir

lemma SameOff.refl (changed : Place → Prop) (folder : Folder) : SameOff changed folder folder :=
  ⟨rfl, fun _ _ => rfl, fun _ h => h⟩

lemma SameOff.trans {changed : Place → Prop} {middle : Folder} (h : SameOff changed before middle)
    (h' : SameOff changed middle after) : SameOff changed before after where
  home_eq := h'.home_eq.trans h.home_eq
  node?_eq p hp := (h'.node?_eq p hp).trans (h.node?_eq p hp)
  dir_stays p hp := h'.dir_stays p (h.dir_stays p hp)

lemma SameOff.mono {changed changed' : Place → Prop} (h : SameOff changed before after)
    (himp : ∀ p, changed p → changed' p) : SameOff changed' before after :=
  ⟨h.home_eq, fun p hp => h.node?_eq p (mt (himp p) hp), h.dir_stays⟩

lemma sameOff_put (folder : Folder) (place : Place) (content : Text) :
    SameOff (· = place) folder (folder.put place content) where
  home_eq := home_put folder place content
  node?_eq p hp := by rw [node?, node?, dirs_put, lookup_put, if_neg hp]
  dir_stays p hp := by rwa [node?_eq_dir_iff, dirs_put, ← node?_eq_dir_iff]

lemma sameOff_putDirs (folder : Folder) (place : Place) :
    SameOff (· = place) folder (folder.putDirs [place]) where
  home_eq := rfl
  node?_eq p hp := by rw [node?_putDirs, if_neg (by simpa using hp)]
  dir_stays p hp := by
    rw [node?_putDirs]
    split_ifs
    · rfl
    · exact hp

/-! ### Ways -/

lemma walk_append (folder : Folder) (place : Place) (cs cs' : List Text) :
    folder.walk place (cs ++ cs') = folder.walk place cs >>= (folder.walk · cs') := by
  fun_induction folder.walk place cs with
  | case1 place => rfl
  | case2 place c rest hstep ih => rw [List.cons_append, walk, if_pos hstep, ih]
  | case3 place c rest hstep hnode | case4 place c rest hstep content hnode =>
      rw [List.cons_append, walk, if_neg hstep, hnode]
      rfl
  | case5 place c rest hstep hnode ih =>
      rw [List.cons_append, walk, if_neg hstep, hnode]
      exact ih

lemma walk_append_of_ok {cs cs' : List Text} (h : folder.walk place cs = .ok p) :
    folder.walk place (cs ++ cs') = folder.walk p cs' := by
  rw [walk_append, h, Except.ok_bind]

lemma exists_of_walk_cons {c : Text} {rest : List Text} (h : folder.walk p (c :: rest) = .ok q) :
    ∃ p', folder.walk p [c] = .ok p' ∧ folder.walk p' rest = .ok q := by
  rw [← List.singleton_append, walk_append] at h
  exact Except.exists_of_bind_ok h

/-- One step more, with the components listed from the last one on. -/
lemma walk_reverse_cons {c : Text} {done : List Text}
    (hdone : folder.walk start done.reverse = .ok p) (hc : folder.walk p [c] = .ok q) :
    folder.walk start (c :: done).reverse = .ok q := by
  rw [List.reverse_cons, walk_append_of_ok hdone, hc]

lemma walk_dirStep {c : Text} (h : isDirStep c) (place : Place) :
    folder.walk place [c] = .ok (dirStep place c) := by
  rw [walk, if_pos h, walk]

lemma walk_name_eq_ok_iff {c : Text} (h : isDirStep c = false) :
    folder.walk place [c] = .ok p ↔
      folder.node? (place ++ [c]) = some .dir ∧ p = place ++ [c] := by
  rw [walk, h, if_neg Bool.false_ne_true]
  split
  · simp [*]
  · simp [*]
  · rename_i hnode
    rw [walk, Except.ok.injEq]
    exact ⟨fun heq => ⟨hnode, heq.symm⟩, fun hp => hp.2.symm⟩

lemma SameOff.origin_eq {changed : Place → Prop} (h : SameOff changed before after) (path : Text) :
    after.origin path = before.origin path := by
  rw [origin, h.home_eq, ← origin]

/-- The way through directories stays as long as they do. -/
lemma SameOff.walk_eq {changed : Place → Prop} {cs : List Text} (h : SameOff changed before after)
    (hwalk : before.walk start cs = .ok place) : after.walk start cs = .ok place := by
  fun_induction before.walk start cs with
  | case1 start => exact hwalk
  | case2 start c rest hstep ih => rw [walk, if_pos hstep, ih hwalk]
  | case3 | case4 => cases hwalk
  | case5 start c rest hstep hnode ih =>
      rw [walk, if_neg hstep, h.dir_stays _ hnode]
      exact ih hwalk

/-- **Cleaned paths lead to the same place.** The components so far lead to `p`, and the
others from there to `q`. -/
lemma walk_cleanComponents {rooted : Bool} {done cs : List Text} (hstart : rooted → start = [])
    (hsteps : ∀ c ∈ done, c = (".." : Text) ∨ isDirStep c = false)
    (hdone : folder.walk start done.reverse = .ok p) (h : folder.walk p cs = .ok q) :
    folder.walk start (Path.cleanComponents rooted done cs).reverse = .ok q := by
  fun_induction Path.cleanComponents rooted done cs generalizing p with
  | case1 done =>
      cases h
      exact hdone
  | case2 done c rest hskip ih =>
      -- the component leads nowhere else
      rw [walk, if_pos (by rcases hskip with rfl | rfl <;> rfl)] at h
      have hstay : dirStep p c = p := by rcases hskip with rfl | rfl <;> rfl
      exact ih hsteps hdone (hstay ▸ h)
  | case3 rest hne ih =>
      obtain ⟨p', hp', hrest⟩ := exists_of_walk_cons h
      cases hdone
      refine ih (fun c hc => ?_) ?_ hrest
      · split_ifs at hc
        · exact absurd hc List.not_mem_nil
        · exact .inl (List.mem_singleton.mp hc)
      · split_ifs with hrooted
        · -- nothing lies above the root
          rw [walk_dirStep rfl] at hp'
          cases hp'
          rw [hstart hrooted]
          rfl
        · exact hp'
  | case4 rest before hne ih =>
      obtain ⟨p', hp', hrest⟩ := exists_of_walk_cons h
      exact ih (List.forall_mem_cons.mpr ⟨.inl rfl, hsteps⟩) (walk_reverse_cons hdone hp') hrest
  | case5 rest last before hlast hne ih =>
      -- the last component is a name, and the step leads back to where it was taken
      obtain ⟨p', hp', hrest⟩ := exists_of_walk_cons h
      have hname : isDirStep last = false :=
        (hsteps last List.mem_cons_self).resolve_left hlast
      rw [List.reverse_cons, walk_append] at hdone
      obtain ⟨p₀, hbefore, hp⟩ := Except.exists_of_bind_ok hdone
      obtain ⟨-, rfl⟩ := (walk_name_eq_ok_iff hname).mp hp
      rw [walk_dirStep rfl] at hp'
      cases hp'
      refine ih (List.forall_mem_cons.mp hsteps).2 hbefore ?_
      simpa [dirStep] using hrest
  | case6 done c rest hskip hdots ih =>
      obtain ⟨p', hp', hrest⟩ := exists_of_walk_cons h
      have hname : isDirStep c = false := by
        obtain ⟨hempty, hdot⟩ := not_or.mp hskip
        simp [isDirStep, hempty, hdot, hdots]
      exact ih (List.forall_mem_cons.mpr ⟨.inr hname, hsteps⟩) (walk_reverse_cons hdone hp') hrest

/-- The path leads to a directory. -/
def LeadsTo (folder : Folder) (path : Text) (place : Place) : Prop :=
  folder.walk (folder.origin path) (Path.components path) = .ok place

lemma SameOff.leadsTo {changed : Place → Prop} (h : SameOff changed before after)
    (hpath : before.LeadsTo path place) : after.LeadsTo path place := by
  rw [LeadsTo, h.origin_eq]
  exact h.walk_eq hpath

/-- The joined path of a name in a directory leads there. -/
lemma LeadsTo.exists_components_join (h : folder.LeadsTo dir place) (hdir : dir ≠ [])
    (hname : IsName name) :
    ∃ front, Path.components (Path.join dir name) = front ++ [name] ∧
      folder.walk (folder.origin (Path.join dir name)) front = .ok place := by
  obtain ⟨hcomponents, hrooted⟩ := Path.components_join hdir hname
  refine ⟨_, hcomponents, ?_⟩
  rw [origin, hrooted, ← origin]
  have hstart : Path.isRooted dir → folder.origin dir = [] := fun hroot => if_pos hroot
  have hclean : folder.walk (folder.origin dir)
      (Path.cleanComponents (Path.isRooted dir) [] (Path.components dir)).reverse = .ok place :=
    walk_cleanComponents hstart (by simp) rfl h
  split_ifs
  · exact hclean
  · exact hclean

/-! ### Reading and writing -/

/-- A path that can be opened for writing leads through directories to a name in one of
them, and what has that name is no directory. -/
lemma exists_of_openWrite (h : folder.openWrite path = .ok place) :
    ∃ parent, path.isEmpty = false ∧
      folder.walk (folder.origin path) (Path.components path).dropLast = .ok parent ∧
      isDirStep ((Path.components path).getLastD []) = false ∧
      place = parent ++ [(Path.components path).getLastD []] ∧
      folder.node? place ≠ some .dir := by
  rw [openWrite] at h
  split_ifs at h with hempty
  dsimp only at h
  split at h
  · cases h
  · rename_i parent hwalk
    split_ifs at h with hlast
    simp only [Bool.or_eq_true, decide_eq_true_eq, not_or, Bool.not_eq_true] at hlast
    -- no component at the end is empty, so the name is that of the last one
    have hall : Path.named path = Path.components path := by
      have hsuffix := List.dropWhile_suffix List.isEmpty (l := (Path.components path).reverse)
      have hlength := hlast.1
      rw [Path.named, List.length_reverse] at hlength
      rw [Path.named, hsuffix.eq_of_length_le (by rw [List.length_reverse]; omega),
        List.reverse_reverse]
    rw [hall] at hwalk hlast h
    split at h
    · cases h
    · rename_i hnotDir
      cases h
      exact ⟨parent, by simpa using hempty, hwalk, hlast.2, rfl, hnotDir⟩

/-- **What is written to a path is read from it.** -/
lemma read_put_of_openWrite (h : folder.openWrite path = .ok place) :
    (folder.put place content).read path = .ok content := by
  obtain ⟨parent, hempty, hwalk, hlast, rfl, hnotDir⟩ := exists_of_openWrite h
  have hsame := folder.sameOff_put (parent ++ [(Path.components path).getLastD []]) content
  rw [read, openRead, hempty, if_neg Bool.false_ne_true, hsame.origin_eq]
  dsimp only
  rw [hsame.walk_eq hwalk]
  dsimp only
  rw [hlast, if_neg Bool.false_ne_true, node?_put_self hnotDir]

/-- A file of this name in a directory can be written only there. -/
lemma LeadsTo.eq_of_openWrite_join (h : folder.LeadsTo dir place) (hdir : dir ≠ [])
    (hname : IsName name) (hopen : folder.openWrite (Path.join dir name) = .ok p) :
    p = place ++ [name] := by
  obtain ⟨front, hcomponents, hwalk⟩ := h.exists_components_join hdir hname
  obtain ⟨parent, -, hparent, -, rfl, -⟩ := exists_of_openWrite hopen
  rw [hcomponents, List.dropLast_concat, hwalk] at hparent
  cases hparent
  rw [hcomponents, List.getLastD_concat]

/-- Whether or not it succeeds, writing changes the file that the path names at most. -/
lemma write_cases (folder : Folder) (path content : Text) :
    (∃ reason, folder.openWrite path = .error reason ∧
      folder.write path content = (.error ⟨.opening, path, reason⟩, folder)) ∨
    ∃ place, folder.openWrite path = .ok place ∧
      (folder.write path content).2 = folder.put place (folder.fitting place content) ∧
      ((folder.write path content).1 = .ok () ↔ folder.fitting place content = content) := by
  rw [write]
  split
  · rename_i reason hopen
    exact .inl ⟨reason, hopen, rfl⟩
  · rename_i place hopen
    refine .inr ⟨place, hopen, rfl, ?_⟩
    dsimp only
    split_ifs with hfits <;> simp [hfits]

/-- **Writing into a directory** changes nothing that is not below it. -/
lemma LeadsTo.sameOff_write_join (h : folder.LeadsTo dir place) (hdir : dir ≠ [])
    (hname : IsName name) (content : Text) :
    SameOff (place <+: ·) folder (folder.write (Path.join dir name) content).2 := by
  rcases folder.write_cases (Path.join dir name) content with ⟨reason, -, heq⟩ | ⟨p, hopen, heq, -⟩
  · rw [heq]
    exact .refl _ folder
  · rw [heq, h.eq_of_openWrite_join hdir hname hopen]
    refine (folder.sameOff_put _ _).mono ?_
    rintro q rfl
    exact List.prefix_append place [name]

/-! ### Directories for temporary files -/

/-- One folder differs from the other in a directory at most that is new in `dir` and has
a name that begins with `stem`, and in what is below it. -/
def AddsIn (dir stem : Text) (before after : Folder) : Prop :=
  ∃ parent name, before.LeadsTo dir parent ∧ stem <+: name ∧
    before.node? (parent ++ [name]) = none ∧ SameOff ((parent ++ [name]) <+: ·) before after

/-- **A new directory elsewhere leaves the working directory alone.** It can be neither the
working directory nor above it, as these exist. -/
lemma AddsIn.node?_eq {stem : Text} (h : AddsIn dir stem before after)
    (helsewhere : ∀ parent, before.LeadsTo dir parent → ¬ before.home <+: parent)
    (hp : before.home <+: p) : after.node? p = before.node? p := by
  obtain ⟨parent, name, hparent, -, hnew, hsame⟩ := h
  refine hsame.node?_eq p fun hfresh => ?_
  have hnot : ¬ (parent ++ [name]) <+: before.home := fun habove => by
    rw [node?_of_isPrefix_home habove] at hnew
    cases hnew
  rcases List.prefix_or_prefix_of_prefix hfresh hp with habove | hbelow
  · exact hnot habove
  · rcases List.prefix_concat_iff.mp hbelow with heq | hbelow
    · exact hnot (heq ▸ List.prefix_rfl)
    · exact helsewhere parent hparent hbelow

/-- The way to a name in a directory is the way to the directory. -/
lemma exists_components_inside (folder : Folder) (hdir : dir ≠ []) (hname : IsName name) :
    ∃ front, Path.components (Path.inside dir name) = front ++ [name] ∧
      folder.walk (folder.origin (Path.inside dir name)) front =
        folder.walk (folder.origin dir) (Path.components dir) := by
  by_cases hslash : dir.getLast? = some Path.slash
  · -- behind the last slash there is an empty component
    obtain ⟨dir, rfl⟩ := List.getLast?_eq_some_iff.mp hslash
    refine ⟨Path.components dir, ?_, ?_⟩
    · rw [Path.inside, if_pos hslash, ← Path.components_append_name hname dir]
      rfl
    · rw [Path.inside, if_pos hslash, origin, Path.isRooted_append hdir, ← origin,
        Path.components_append_cons, walk_append]
      cases folder.walk (folder.origin (dir ++ [Path.slash])) (Path.components dir) <;> rfl
  · refine ⟨Path.components dir, ?_, ?_⟩
    · rw [Path.inside, if_neg hslash, Path.components_append_name hname dir]
    · rw [Path.inside, if_neg hslash, List.append_assoc, origin, Path.isRooted_append hdir,
        ← origin]

/-- A directory that is made inside another one is new there. -/
lemma exists_of_makeDir (hdir : dir ≠ []) (hname : IsName name)
    (h : folder.makeDir (Path.inside dir name) = .ok made) :
    ∃ parent, folder.LeadsTo dir parent ∧ folder.node? (parent ++ [name]) = none ∧
      made = folder.putDirs [parent ++ [name]] ∧
      made.LeadsTo (Path.inside dir name) (parent ++ [name]) := by
  obtain ⟨front, hcomponents, hwalk⟩ := folder.exists_components_inside hdir hname
  rw [makeDir, Path.named_eq_components hcomponents hname.ne.1, hcomponents,
    List.dropLast_concat, List.getLastD_concat, hwalk] at h
  split at h
  · cases h
  · rename_i parent hparent
    rw [hname.isDirStep_eq, if_neg Bool.false_ne_true] at h
    split at h
    · cases h
    · rename_i hnew
      cases h
      refine ⟨parent, hparent, hnew, rfl, ?_⟩
      have hsame := folder.sameOff_putDirs (parent ++ [name])
      rw [LeadsTo, hcomponents, hsame.origin_eq,
        walk_append_of_ok (hsame.walk_eq (hwalk.trans hparent)),
        walk_name_eq_ok_iff hname.isDirStep_eq, node?_putDirs]
      simp

/-- However many numbers are drawn, no directory is made or the last number gives its name. -/
lemma makeNumbered_cases (folder : Folder) (drawn : Nat → Nat) (dir : Text) {stem : Text}
    (hstem : IsName stem) (tries : Nat) :
    (∃ e, folder.makeNumbered drawn dir (Path.inside dir stem) tries = (.error e, folder)) ∨
    ∃ name made, IsName name ∧ stem <+: name ∧
      folder.makeNumbered drawn dir (Path.inside dir stem) tries =
        (.ok (Path.inside dir name), made) ∧
      folder.makeDir (Path.inside dir name) = .ok made := by
  induction tries with
  | zero => exact .inl ⟨_, rfl⟩
  | succ tries ih =>
      rw [makeNumbered]
      split
      · rename_i made hmade
        rw [Path.inside_append] at hmade ⊢
        exact .inr ⟨_, made, hstem.append_ofNat _, List.prefix_append _ _, rfl, hmade⟩
      · exact ih
      · exact .inl ⟨_, rfl⟩
      · exact .inl ⟨_, rfl⟩

/-- **Making a directory for temporary files** fails without a change, or adds one. -/
lemma makeTemp_cases (folder : Folder) (drawn : Nat → Nat) {stem : Text} (hdir : dir ≠ [])
    (hstem : IsName stem) :
    (∃ e, folder.makeTemp drawn dir stem = (.error e, folder)) ∨
    ∃ path made place, folder.makeTemp drawn dir stem = (.ok path, made) ∧
      path ≠ [] ∧ made.LeadsTo path place ∧
      ∀ after, SameOff (place <+: ·) made after → AddsIn dir stem folder after := by
  rcases folder.makeNumbered_cases drawn dir hstem tempTries with
    hfails | ⟨name, made, hname, hprefix, heq, hmade⟩
  · exact .inl hfails
  · obtain ⟨parent, hparent, hnew, hmadeEq, hleads⟩ := exists_of_makeDir hdir hname hmade
    refine .inr ⟨_, made, _, heq, ?_, hleads, fun after hsame => ?_⟩
    · rw [Path.inside]
      split_ifs <;> simp [hdir]
    · refine ⟨parent, name, hparent, hprefix, hnew, SameOff.trans ?_ hsame⟩
      rw [hmadeEq]
      exact (folder.sameOff_putDirs _).mono fun p hp => hp ▸ List.prefix_rfl

end Folder

end FlatClosure
