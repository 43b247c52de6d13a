import ExtensionAudit.Proofs.Request.Alike
import ExtensionAudit.Request.Company

/-!
# Request — several on one disk

Requests with directories of their own do not get in each other's way, in whatever order
they take their turns (`Company.isolated`). What one of them does is confined to its
directory, and the directories are apart, so each finds in its own what it would find if
it were alone. A request that is alone may have another directory, on another disk: all
that tells the two apart is the name of the directory.
-/

namespace ExtensionAudit

variable {auditor : Auditor} {path path' : Path} {disk disk' : Disk}

/-! ## One request and itself alone -/

namespace Request.Alike

variable {request request' : Request}

/-- What a tool does to both is the same, if it does the same in directories with the
same contents. -/
theorem perform (h : request.Alike auditor path path' request')
    (hd : disk.Alike path disk' path') {tool : Tool} {deed : Tool.Deed}
    (hdeed : deed.Alike tool path path') :
    Tandem auditor path path' disk disk' (request.perform disk tool deed)
      (request'.perform disk' tool deed) := by
  have hphase := h.phase
  unfold Request.perform
  rw [h.directory, h.directory', hd.hosts.located, hd.hosts'.located]
  generalize request.phase = phase at hphase
  generalize request'.phase = phase' at hphase
  cases hphase with
  | analyze manifest files =>
    obtain ⟨hbelow, hevent⟩ := hdeed (disk.contents path.place)
    dsimp only
    rw [← hd.contents, ← hbelow]
    generalize (deed path (disk.contents path.place)).2 = event at hevent
    generalize (deed path' (disk.contents path.place)).2 = event' at hevent
    cases hevent with
    | none => exact ⟨h, hd.refill _⟩
    | some hevent => exact ⟨h.notice (.tool tool hevent), hd.refill _⟩
  | _ => exact ⟨h, hd.rest⟩

end Request.Alike

namespace Visit

/-- Does the turn not depend on which of two directories it is about? Only a tool could
tell. -/
def Turn.IsAlike (path path' : Path) : Turn → Prop
  | .tool called deed => deed.Alike called path path'
  | _ => True

theorem Turn.isAlike_refl (path : Path) (turn : Turn) : turn.IsAlike path path := by
  cases turn with
  | tool tool deed =>
    intro contents
    refine ⟨rfl, ?_⟩
    cases (deed path contents).2 with
    | none => exact .none
    | some event => exact .some (.same event)
  | _ => trivial

/-- Two requests that are just as far, if they have come, and have done the same in
their directories. -/
structure Tandem (auditor : Auditor) (path path' : Path) (disk disk' : Disk)
    (next next' : Option Request × Disk) : Prop where
  request : Option.Rel (Request.Alike auditor path path') next.1 next'.1
  disk : Disk.Tandem path path' disk disk' next.2 next'.2

/-- A visit that is made elsewhere. -/
def elsewhere (visit : Visit) (directory : Path) : Visit :=
  { visit with directory := directory }

/-- Either directory is made, or neither. -/
theorem enter_alike (visit : Visit) (hd : disk.Alike visit.directory disk' path')
    (hspelling : auditor.SpellsAlike visit.directory path') :
    Tandem auditor visit.directory path' disk disk' (visit.enter disk)
      ((visit.elsewhere path').enter disk') := by
  have hnone : Disk.above ∉ ([] : List Text) := List.not_mem_nil
  have hmade := hd.makeDirectory hnone
  simp only [Path.descend, List.append_nil] at hmade
  simp only [enter, elsewhere]
  generalize disk.makeDirectory visit.directory = made at hmade
  generalize disk'.makeDirectory path' = made' at hmade
  cases hmade with
  | error _ => exact ⟨.none, hd.rest⟩
  | ok hdisk => exact ⟨.some (Request.alike_request visit.origin hspelling), hdisk⟩

/-- A turn does the same to both. -/
theorem take_alike (visit : Visit) (hd : disk.Alike visit.directory disk' path')
    (hspelling : auditor.SpellsAlike visit.directory path')
    {request? request?' : Option Request} (hrequest :
      Option.Rel (Request.Alike auditor visit.directory path') request? request?')
    {turn : Turn} (hturn : turn.IsAlike visit.directory path') :
    Tandem auditor visit.directory path' disk disk'
      (visit.take auditor (request?, disk) turn)
      ((visit.elsewhere path').take auditor (request?', disk') turn) := by
  cases hrequest with
  | none =>
    cases turn with
    | opening => exact visit.enter_alike hd hspelling
    | _ => exact ⟨.none, hd.rest⟩
  | some hrequest =>
    cases turn with
    | opening => exact ⟨.some hrequest, hd.rest⟩
    | own turn =>
      have htake := hrequest.take hd turn
      exact ⟨.some htake.request, htake.disk⟩
    | tool tool deed =>
      have htake := hrequest.perform hd hturn
      exact ⟨.some htake.request, htake.disk⟩

end Visit

/-! ## What can be told of a request -/

namespace Request

/-- What a request ended with, if it is over. -/
def result? (request : Request) : Option (Except Fault Report) :=
  match request.phase with
  | .ended outcome => some outcome
  | .overrun _ => some (.error .removal)
  | _ => none

/-- Two requests of which the same can be told: they have the same record, and have
ended with the same report, or with the same fault up to the name of the directory. -/
structure Matches (path path' : Path) (request request' : Request) : Prop where
  record : request.record.Alike path path' request'.record
  result : Option.Rel (OutcomeAlike path path') request.result? request'.result?

variable {request request' : Request}

theorem Alike.matches (h : request.Alike auditor path path' request') :
    request.Matches path path' request' := by
  refine ⟨h.record, ?_⟩
  have hphase := h.phase
  rw [result?, result?]
  generalize request.phase = phase at hphase
  generalize request'.phase = phase' at hphase
  cases hphase with
  | ended houtcome => exact .some houtcome
  | overrun _ => exact .some (.error (.same .removal))
  | _ => exact .none

/-- With one directory there is no difference left. -/
theorem Matches.eq (h : request.Matches path path request') :
    request.record = request'.record ∧ request.result? = request'.result? := by
  refine ⟨h.record.eq, ?_⟩
  have hresult := h.result
  generalize request.result? = result at hresult
  generalize request'.result? = result' at hresult
  cases hresult with
  | none => rfl
  | some houtcome => rw [houtcome.eq fun _ _ hfault => hfault.eq]

end Request

/-! ## Directories that are apart -/

namespace Disk

theorem IsFresh.hosts (h : disk.IsFresh path) : disk.Hosts path := by
  obtain ⟨opened, hmade⟩ := h.made
  obtain ⟨hlocated, -, hparent, -⟩ := makeDirectory_ok hmade
  exact ⟨hlocated, hparent, h.gone.not_fixed⟩

theorem IsFresh.contents (h : disk.IsFresh path) : disk.contents path.place = [] := by
  refine List.eq_nil_iff_forall_not_mem.mpr fun entry hmem => ?_
  exact h.gone.not_mem (mem_contents.mp hmem) (List.prefix_append path.place entry.1)

/-- No new directory is in another one, for what one would be made in is there already. -/
theorem IsFresh.not_within (h : disk.IsFresh path) (h' : disk.IsFresh path')
    (hne : path.place ≠ path'.place) :
    ¬ path.place <+: path'.place := by
  rintro ⟨names, hnames⟩
  have hlast : names ≠ [] := by
    rintro rfl
    exact hne (by rw [← hnames, List.append_nil])
  have hparent := h'.hosts.parent
  rw [← hnames, List.dropLast_append_of_ne_nil hlast, h.gone] at hparent
  cases hparent

/-- Where a name does not lead inside, it leads to the same as before. -/
def IsIntact (inside : List Text → Prop) (before later : Disk) : Prop :=
  ∀ key, ¬ inside key → later.node? key = before.node? key

variable {inside : List Text → Prop} {before later : Disk}

/-- What is confined to an inside leaves the outside intact. -/
theorem IsIntact.confined (h : IsIntact inside before disk)
    {place : List Text} (hinside : ∀ key, place <+: key → inside key)
    (hconfined : Confined place disk later) :
    IsIntact inside before later :=
  fun key hkey => (hconfined.node? fun hpre => hkey (hinside key hpre)).trans (h key hkey)

/-- Where nothing was inside, all the directories stay. -/
theorem IsIntact.keeps (h : IsIntact inside before later)
    (hgone : ∀ key, inside key → before.node? key = none) :
    before.Keeps later := by
  intro key hkey
  by_cases hinside : inside key
  · rw [hgone key hinside] at hkey
    cases hkey
  · rw [h key hinside, hkey]

end Disk

/-! ## One among others -/

namespace Visit

/-- What holds of a request among others and of itself alone, on what was the disk
`home` before. It is just as far in both, and its directory has the same contents. -/
structure Follows (auditor : Auditor) (path path' : Path) (home : Disk)
    (state alone : Option Request × Disk) : Prop where
  request : Option.Rel (Request.Alike auditor path path') state.1 alone.1
  contents : state.2.contents path.place = alone.2.contents path'.place
  straight : ∀ entry ∈ state.2.contents path.place, Disk.above ∉ entry.1
  intact : Disk.IsIntact (path'.place <+: ·) home alone.2

variable {visit : Visit} {home : Disk} {state alone : Option Request × Disk} {turn : Turn}

theorem follows_start (h : disk.IsFresh path) (h' : home.IsFresh path')
    (auditor : Auditor) :
    Follows auditor path path' home (none, disk) (none, home) := by
  refine ⟨.none, h.contents.trans h'.contents.symm, fun entry hmem => ?_, fun _ _ => rfl⟩
  rw [h.contents] at hmem
  cases hmem

/-- What happens elsewhere on the disk makes no difference. -/
theorem Follows.of_contents (h : Follows auditor path path' home state alone)
    (hcontents : disk.contents path.place = state.2.contents path.place) :
    Follows auditor path path' home (state.1, disk) alone :=
  ⟨h.request, hcontents.trans h.contents,
    fun entry hmem => h.straight entry (hcontents ▸ hmem), h.intact⟩

/-- A turn of the request is the turn that it takes alone. -/
theorem Follows.take (h : Follows auditor visit.directory path' home state alone)
    (hspelling : auditor.SpellsAlike visit.directory path')
    (hosts : state.2.Hosts visit.directory) (fresh : home.IsFresh path')
    (hlength : (Utf8.encode visit.directory.text).length =
      (Utf8.encode path'.text).length) (hturn : turn.IsAlike visit.directory path') :
    Follows auditor visit.directory path' home (visit.take auditor state turn)
        ((visit.elsewhere path').take auditor alone turn) ∧
      Disk.Confined visit.directory.place state.2 (visit.take auditor state turn).2 := by
  have hkeeps : home.Keeps alone.2 := by
    refine h.intact.keeps ?_
    rintro key ⟨names, rfl⟩
    exact fresh.gone names
  have hd : state.2.Alike visit.directory alone.2 path' :=
    ⟨hosts, hkeeps.hosts fresh.hosts, h.contents, h.straight, hlength⟩
  have htandem : Tandem auditor visit.directory path' state.2 alone.2
      (visit.take auditor state turn)
      ((visit.elsewhere path').take auditor alone turn) :=
        visit.take_alike hd hspelling h.request hturn
  have hintact := h.intact.confined (fun _ => id) htandem.disk.confined'
  exact ⟨⟨htandem.request, htandem.disk.contents, htandem.disk.straight, hintact⟩,
    htandem.disk.confined⟩

/-- A request that has not come with a turn had not come before, and the turn has done
nothing. -/
theorem take_eq_none (h : (visit.take auditor state turn).1 = none) :
    state.1 = none ∧ (visit.take auditor state turn).2 = state.2 := by
  obtain ⟨request?, disk⟩ := state
  cases request? with
  | some request => cases h
  | none =>
    refine ⟨rfl, ?_⟩
    cases turn with
    | opening =>
      simp only [take, enter] at h ⊢
      cases hmade : disk.makeDirectory visit.directory with
      | ok opened =>
        rw [hmade] at h
        cases h
      | error fault => rfl
    | _ => rfl

/-- A request that has not come has not been let in, if its directory could be made, and
has done nothing. -/
theorem run_eq_none (fresh : home.IsFresh visit.directory) {turns : List Turn}
    (h : (visit.run auditor home turns).1 = none) : .opening ∉ turns ∧
    (visit.run auditor home turns).2 = home := by
  induction turns using List.reverseRecOn with
  | nil => exact ⟨List.not_mem_nil, rfl⟩
  | append_singleton turns turn ih =>
    have hconcat : visit.run auditor home (turns ++ [turn]) =
        visit.take auditor (visit.run auditor home turns) turn :=
      List.foldl_concat ..
    rw [hconcat] at h ⊢
    obtain ⟨hbefore, hsame⟩ := take_eq_none h
    obtain ⟨hturns, hhome⟩ := ih hbefore
    refine ⟨fun hmem => ?_, hsame.trans hhome⟩
    rcases List.mem_append.mp hmem with hmem | hmem
    · exact hturns hmem
    · cases List.mem_singleton.mp hmem
      obtain ⟨opened, hmade⟩ := fresh.made
      rw [show visit.run auditor home turns = (none, home) from Prod.ext hbefore hhome]
        at h
      simp only [take, enter, hmade] at h
      cases h

end Visit

/-! ## Companies -/

namespace Company

variable {ι : Type} [DecidableEq ι] {visits : ι → Visit} {before : Disk}
    {own : ι → Path} {home : ι → Disk}
  {company : Company ι} {alone : ι → Option Request × Disk}

/-- On what grounds requests are compared with themselves alone: every directory is new
where it is made, those on the one disk are not the same, and each has a name as long as
the one that the request has when it is alone. -/
structure Grounds (visits : ι → Visit) (before : Disk) (own : ι → Path)
    (home : ι → Disk) : Prop where
  fresh : ∀ i, before.IsFresh (visits i).directory
  apart : ∀ i j, i ≠ j → (visits i).directory.place ≠ (visits j).directory.place
  alone : ∀ i, (home i).IsFresh (own i)
  length : ∀ i, (Utf8.encode (visits i).directory.text).length =
    (Utf8.encode (own i).text).length

/-- Does a name lead to a directory of the requests, or into one? -/
def IsInside (visits : ι → Visit) (key : List Text) : Prop :=
  ∃ i, (visits i).directory.place <+: key

/-- What holds of a company and of its requests alone: nothing has changed outside of
the directories, and every request is as far as it is alone. -/
structure Follows (auditor : Auditor) (visits : ι → Visit) (before : Disk)
    (own : ι → Path) (home : ι → Disk) (company : Company ι)
    (alone : ι → Option Request × Disk) : Prop where
  intact : Disk.IsIntact (IsInside visits) before company.disk
  visit : ∀ i, Visit.Follows auditor (visits i).directory (own i) (home i)
    (company.requests i, company.disk) (alone i)

theorem turnsOf_concat (i j : ι) (turn : Visit.Turn) (turns : List (ι × Visit.Turn)) :
    turnsOf i (turns ++ [(j, turn)]) = turnsOf i turns ++ if j =
      i then [turn] else [] := by
  rw [turnsOf, List.filterMap_append]
  congr 1
  by_cases hji : j = i <;> simp [hji]

/-- A turn of one request is taken as it is alone, and does nothing to the others. -/
theorem Follows.take (h : Follows auditor visits before own home company alone)
    (grounds : Grounds visits before own home) (j : ι)
    (hspelling : auditor.SpellsAlike (visits j).directory (own j)) {turn : Visit.Turn}
    (hturn : turn.IsAlike (visits j).directory (own j)) :
    Follows auditor visits before own home (company.take auditor visits (j, turn))
      (Function.update alone j
        (((visits j).elsewhere (own j)).take auditor (alone j) turn)) := by
  have hkeeps : before.Keeps company.disk := by
    refine h.intact.keeps ?_
    rintro key ⟨i, names, rfl⟩
    exact (grounds.fresh i).gone names
  obtain ⟨hvisit, hconfined⟩ :=
    (h.visit j).take hspelling (hkeeps.hosts (grounds.fresh j).hosts) (grounds.alone j)
      (grounds.length j) hturn
  refine ⟨h.intact.confined (fun key hpre => ⟨j, hpre⟩) hconfined, fun i => ?_⟩
  by_cases hij : i = j
  · subst hij
    simpa [Company.take] using hvisit
  · have hin :=
      (grounds.fresh j).not_within (grounds.fresh i) (grounds.apart j i (Ne.symm hij))
    have hout := (grounds.fresh i).not_within (grounds.fresh j) (grounds.apart i j hij)
    have hcontents := hconfined.contents hin hout
    rw [Function.update_of_ne hij]
    simpa [Company.take, hij] using (h.visit i).of_contents hcontents

theorem mem_turnsOf {i : ι} {turn : Visit.Turn} {turns : List (ι × Visit.Turn)} :
    turn ∈ turnsOf i turns ↔ (i, turn) ∈ turns := by
  simp [turnsOf]

/-- Whatever turns are taken, every request is as far as it is alone. -/
theorem follows_run (grounds : Grounds visits before own home)
    (hspelling : ∀ i, auditor.SpellsAlike (visits i).directory (own i))
    (turns : List (ι × Visit.Turn))
    (hturns : ∀ turn ∈ turns, turn.2.IsAlike (visits turn.1).directory (own turn.1)) :
    Follows auditor visits before own home (run auditor visits before turns)
      fun i => ((visits i).elsewhere (own i)).run auditor (home i) (turnsOf i turns) := by
  induction turns using List.reverseRecOn with
  | nil =>
    exact ⟨fun _ _ => rfl,
      fun i => Visit.follows_start (grounds.fresh i) (grounds.alone i) auditor⟩
  | append_singleton turns turn ih =>
    obtain ⟨hbefore, hlast⟩ := List.forall_mem_append.mp hturns
    obtain ⟨j, turn⟩ := turn
    have halone : (fun i => ((visits i).elsewhere (own i)).run auditor (home i)
        (turnsOf i (turns ++ [(j, turn)]))) =
        Function.update (fun i =>
          ((visits i).elsewhere (own i)).run auditor (home i) (turnsOf i turns)) j
          (((visits j).elsewhere (own j)).take auditor
            (((visits j).elsewhere (own j)).run auditor (home j) (turnsOf j turns))
              turn) := by
      funext i
      rw [turnsOf_concat]
      by_cases hij : i = j
      · subst hij
        simp [Visit.run]
      · rw [Function.update_of_ne hij, if_neg (Ne.symm hij), List.append_nil]
    rw [halone, run, List.foldl_concat]
    exact (ih hbefore).take grounds j (hspelling j) (hlast _ (List.mem_singleton_self _))

/-- **Requests do not get in each other's way.** In whatever order they take their
turns, nothing outside of their directories changes at any time. A request that was let
in is as far as it is when it takes its turns alone: it has the same record, and has
ended with the same report or the same fault. If it has another directory when it is
alone, that is up to the name of the directory; then its tools must do the same in both,
and no name may keep their commands from being spelt for the system. -/
theorem isolated (grounds : Grounds visits before own home)
    (auditor : Auditor) (hspelling : ∀ i, own i ≠ (visits i).directory →
      auditor.SpellsAlike (visits i).directory (own i)) (turns : List (ι × Visit.Turn))
    (hturns : ∀ turn ∈ turns, own turn.1 ≠ (visits turn.1).directory →
      turn.2.IsAlike (visits turn.1).directory (own turn.1)) :
    (∀ first rest, turns = first ++ rest → ∀ key, ¬ IsInside visits key →
        (run auditor visits before first).disk.node? key = before.node? key) ∧
      ∀ i, (i, .opening) ∈ turns → ∃ request alone,
        (run auditor visits before turns).requests i = some request ∧
        (((visits i).elsewhere (own i)).run auditor (home i) (turnsOf i turns)).1 =
          some alone ∧
        request.Matches (visits i).directory (own i) alone ∧
        (own i = (visits i).directory →
          request.record = alone.record ∧ request.result? = alone.result?) := by
  replace hturns :
    ∀ turn ∈ turns, turn.2.IsAlike (visits turn.1).directory (own turn.1) := by
    intro turn hmem
    by_cases hsame : own turn.1 = (visits turn.1).directory
    · rw [hsame]
      exact turn.2.isAlike_refl _
    · exact hturns turn hmem hsame
  replace hspelling : ∀ i, auditor.SpellsAlike (visits i).directory (own i) := by
    intro i
    by_cases hsame : own i = (visits i).directory
    · rw [hsame]
      exact fun _ => rfl
    · exact hspelling i hsame
  constructor
  · rintro first rest rfl
    exact (follows_run grounds hspelling
      first (List.forall_mem_append.mp hturns).1).intact
  · intro i hopening
    have hrequest := ((follows_run grounds hspelling turns hturns).visit i).request
    have halone :
        (((visits i).elsewhere (own i)).run auditor (home i) (turnsOf i turns)).1 ≠
        none := fun hnone =>
      (Visit.run_eq_none (grounds.alone i) hnone).1 (mem_turnsOf.mpr hopening)
    dsimp only at hrequest
    generalize (run auditor visits before turns).requests i = request? at hrequest ⊢
    generalize (((visits i).elsewhere (own i)).run auditor (home i) (turnsOf i turns)).1
      = alone? at hrequest halone ⊢
    cases hrequest with
    | none => exact absurd rfl halone
    | some hrequest =>
      refine ⟨_, _, rfl, rfl, hrequest.matches, fun hsame => ?_⟩
      have hmatches := hrequest.matches
      rw [hsame] at hmatches
      exact hmatches.eq

/-! ### Two requests, one of them with a scanner that fails -/

/-- The one brings a package with nothing but a manifest, and the other asks for nothing
that there is. -/
def pair : Bool → Visit
  | false => ⟨.package (Package.headed [7] Call.plainArchive), .ofNames ["one"]⟩
  | true => ⟨.target .null, .ofNames ["two"]⟩

/-- The directories that they have alone: the one has another, and the other the same. -/
def pairAlone : Bool → Path
  | false => .ofNames ["own"]
  | true => .ofNames ["two"]

theorem grounds_pair : Grounds pair .empty pairAlone fun _ => .empty := by
  refine ⟨fun i => ?_, fun i j hij => ?_, fun i => ?_, fun i => ?_⟩
  · cases i <;> exact Disk.isFresh_empty (by rintro (h | h) <;> cases h) ⟨_, rfl⟩
  · cases i <;> cases j <;> first | exact absurd rfl hij | decide
  · cases i <;> exact Disk.isFresh_empty (by rintro (h | h) <;> cases h) ⟨_, rfl⟩
  · cases i <;> rfl

/-- A scanner that leaves a file behind, says where it was, and fails. -/
def tellingDeed : Tool.Deed := fun path _ =>
  ([(["log"], .file [])], some (.exited ⟨2, [], Utf8.encode path.text⟩))

theorem tellingDeed_alike :
    tellingDeed.Alike .retire (.ofNames ["one"]) (.ofNames ["own"]) := by
  have hdiagnosis : (⟨2, [],
      Utf8.encode (Path.ofNames ["one"]).text⟩ : Tool.Exit).diagnosis = "one" := by cbv
  have hdiagnosis' : (⟨2, [],
      Utf8.encode (Path.ofNames ["own"]).text⟩ : Tool.Exit).diagnosis = "own" := by cbv
  refine fun _ => ⟨rfl, .some (.exited ⟨rfl, ?_, ?_, ?_⟩)⟩
  · rw [hdiagnosis, hdiagnosis']
    decide
  · rw [hdiagnosis, hdiagnosis']
    exact ⟨[[], []], rfl, rfl⟩
  · exact Analysis.corresponds_refl _ _ _

/-- The turns of the two, one after the other. -/
def pairTurns : List (Bool × Visit.Turn) :=
  [(false, .opening), (true, .opening), (false, .own Call.ownStep),
    (true, .own Call.ownStep), (false, .own .work),
    (true, .own Call.ownStep), (false, .own .work), (true, .own Call.ownStep),
    (false, .own Call.ownStep),
    (false, .own Call.ownStep), (true, .own Call.ownStep), (false, .own Call.ownStep),
    (false, .own Call.ownStep),
    (false, .own (.event (.tool .retire .started))), (true, .own Call.ownStep),
    (false, .tool .retire tellingDeed)]

/-- The two do not get in each other's way, and the other one ends with its own fault. -/
theorem isolated_pair :
    (∀ key, ¬ IsInside pair key →
        (run (Call.bareAuditor true) pair .empty pairTurns).disk.node? key =
          Disk.empty.node? key) ∧
      (∃ request alone,
        (run (Call.bareAuditor true) pair .empty pairTurns).requests false =
          some request ∧
        (((pair false).elsewhere (.ofNames ["own"])).run (Call.bareAuditor true) .empty
          (turnsOf false pairTurns)).1 =
          some alone ∧
        request.Matches (.ofNames ["one"]) (.ofNames ["own"]) alone) ∧
      ∃ request, (run (Call.bareAuditor true) pair .empty pairTurns).requests true =
        some request ∧
        request.result? = some (.error .target) := by
  have htelling : Visit.Turn.IsAlike (.ofNames ["one"]) (.ofNames ["own"])
      (.tool .retire tellingDeed) :=
    tellingDeed_alike
  have hturns : ∀ turn ∈ pairTurns,
      turn.2.IsAlike (pair turn.1).directory (pairAlone turn.1) := by
    simpa [pairTurns, pair, pairAlone, Visit.Turn.IsAlike] using htelling
  have hspelling (i : Bool) :
      (Call.bareAuditor true).SpellsAlike (pair i).directory (pairAlone i) := by
    cases i <;> exact Auditor.spellsAlike rfl rfl rfl
  obtain ⟨houtside, hrequests⟩ :=
    isolated grounds_pair (Call.bareAuditor true) (fun i _ => hspelling i) pairTurns
      fun turn hmem _ =>
      hturns turn hmem
  refine ⟨houtside pairTurns [] (List.append_nil _).symm, ?_, ?_⟩
  · obtain ⟨request, alone, hrequest, halone, hmatches, -⟩ :=
      hrequests false (by simp [pairTurns])
    exact ⟨request, alone, hrequest, halone, hmatches⟩
  · obtain ⟨request, alone, hrequest, halone, -, hsame⟩ :=
      hrequests true (by simp [pairTurns])
    refine ⟨request, hrequest, (hsame rfl).2.trans ?_⟩
    cases halone
    rfl

end Company

end ExtensionAudit
