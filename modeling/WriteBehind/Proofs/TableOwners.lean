import WriteBehind.Proofs.Installation
import WriteBehind.Proofs.TableAgreement

/-!
# Which sources share a table

Stores in memory keep one table per namespace.  A database file keeps one table per name: it
is open only once, under one dao key, so two sources have the same rows there exactly if they
are stored under that dao key in tables of one name (`Cache.Built.shares_iff`).  Nothing in
a setup refuses that (`Configurator.Shares`).
-/

namespace WriteBehind

/-- The table that a store keeps for a source. -/
def DaoRef.tableOf : DaoRef → SourceMeta → TableRef
  | .none, _ => .none
  | .memory, m => .memory m.ns
  | .audited, m => .audited m.ns
  | .file path, m => .file path m.table

/-! ## Open files -/

namespace FileStore

theorem opened_makeDirectories (f : FileStore) (place : Place) (names : List String) :
    (f.makeDirectories place names).2.opened = f.opened := by
  induction names generalizing f place with
  | nil => rfl
  | cons name rest ih =>
      rw [makeDirectories]
      split
      · exact ih f _
      · split
        · exact ih _ _
        · rfl

theorem opened_makeParent (f : FileStore) (path : String) :
    (f.makeParent path).2.opened = f.opened := by
  rw [makeParent]
  split
  · exact opened_makeDirectories f _ _
  · rfl

/-- A file is opened only if it is not open yet, and nothing is known of its tables then. -/
theorem openDao_eq_ok {f f' : FileStore} {options : Json} {path : String}
    (h : f.openDao options = (.ok path, f')) :
    f.opened.get? path = none ∧ f'.opened = f.opened.insert path .empty := by
  cases hread : FileOptions.read? options with
  | none => simp [openDao, hread] at h
  | some o =>
      have hopened := opened_makeParent f o.path
      simp only [openDao, hread] at h
      generalize f.makeParent o.path = made at hopened h
      obtain ⟨place, g⟩ := made
      replace hopened : g.opened = f.opened := hopened
      cases place with
      | none => simp at h
      | some place =>
          dsimp only at h
          split at h
          · simp at h
          · split at h
            · simp at h
            next file _ =>
              split at h
              · simp at h
              next hclosed =>
                obtain ⟨hpath, rfl⟩ := Prod.mk.inj h
                obtain rfl := Except.ok.inj hpath
                rw [← hopened]
                refine ⟨?_, rfl⟩
                simpa [SortedMap.contains] using hclosed

/-- A table keeps the name that its namespace uses, or it gets the name asked for. -/
theorem openTable_eq_ok {f f' : FileStore} {path ns name used : String}
    (h : f.openTable path ns name = (.ok used, f')) :
    ∃ memo, f'.opened = f.opened.insert path memo ∧
      (((f.opened.get? path).getD .empty).get? ns = some used ∧
          memo = (f.opened.get? path).getD .empty ∨
        used = name ∧ memo = ((f.opened.get? path).getD .empty).insert ns name) := by
  cases hmemo : ((f.opened.get? path).getD .empty).get? ns with
  | some known =>
      simp only [openTable, Memo.getOrCreate, hmemo] at h
      obtain ⟨hused, rfl⟩ := Prod.mk.inj h
      obtain rfl := Except.ok.inj hused
      exact ⟨_, rfl, .inl ⟨rfl, rfl⟩⟩
  | none =>
      by_cases hname : name.isEmpty = true
      · simp [openTable, Memo.getOrCreate, hmemo, hname] at h
      · simp only [openTable, Memo.getOrCreate, hmemo, hname, Bool.false_eq_true, if_false] at h
        obtain ⟨hused, rfl⟩ := Prod.mk.inj h
        obtain rfl := Except.ok.inj hused
        exact ⟨_, rfl, .inr ⟨rfl, rfl⟩⟩

end FileStore

namespace Storage

theorem files_of_ask {s s' : Storage} {stage : Stage} {result : Except Error Unit}
    (h : s.ask stage = (result, s')) : s'.files = s.files := by
  obtain ⟨-, rfl⟩ := Prod.mk.inj h
  rfl

/-- Replaying a journal opens and closes nothing. -/
theorem opened_recover (table : TableRef) (commitments : List Commitment) (s : Storage) :
    (recover table commitments s).2.files.opened = s.files.opened := by
  cases table with
  | none | file path name => rfl
  | memory ns => rfl
  | audited ns =>
      cases hask : s.askTable (.audited ns) (.recover commitments.length) with
      | mk result s' =>
          have hfiles := files_of_ask hask
          cases result with
          | error e =>
              simp only [recover, hask]
              rw [hfiles]
          | ok u =>
              simp only [recover, hask]
              rw [← hfiles]
              rfl

theorem files_init (s : Storage) (driver : Driver) (options : Json) :
    (s.init driver options).2.files = s.files := by
  cases driver <;> rfl

theorem files_validate (s : Storage) (driver : Driver) (m : SourceMeta) :
    (s.validate driver m).2.files = s.files := by
  cases driver with
  | none | audited => rfl
  | memory | file =>
      simp only [validate]
      split <;> rfl

theorem files_extend (s : Storage) (driver : Driver) (m : SourceMeta) :
    (s.extend driver m).2.files = s.files := by
  cases driver <;> rfl

/-- A store that is opened is a file that was opened, or no file is touched. -/
theorem files_openDao {s s' : Storage} {driver : Driver} {options : Json} {dao : DaoRef}
    (h : s.openDao driver options = (.ok dao, s')) :
    (∃ path, dao = .file path ∧ s.files.openDao options = (.ok path, s'.files)) ∨
      (∀ path, dao ≠ .file path) ∧ s'.files = s.files := by
  cases driver with
  | none =>
      obtain ⟨hdao, rfl⟩ := Prod.mk.inj h
      obtain rfl := Except.ok.inj hdao
      exact .inr ⟨fun _ => DaoRef.noConfusion, rfl⟩
  | memory =>
      simp only [openDao] at h
      split at h
      · obtain ⟨hdao, rfl⟩ := Prod.mk.inj h
        obtain rfl := Except.ok.inj hdao
        exact .inr ⟨fun _ => DaoRef.noConfusion, rfl⟩
      · cases h
  | file =>
      obtain ⟨hmap, rfl⟩ := Prod.mk.inj h
      obtain ⟨path, hpath, rfl⟩ := exists_of_map_eq_ok hmap
      exact .inl ⟨path, rfl, Prod.ext hpath rfl⟩
  | audited =>
      simp only [openDao] at h
      split at h
      next s₁ hask =>
        have hfiles := files_of_ask hask
        split at h
        · obtain ⟨hdao, rfl⟩ := Prod.mk.inj h
          obtain rfl := Except.ok.inj hdao
          exact .inr ⟨fun _ => DaoRef.noConfusion, hfiles⟩
        · cases h
      · cases h

/-- A table that is opened is one in a file, or no file is touched. -/
theorem files_openTable {s s' : Storage} {dao : DaoRef} {m : SourceMeta} {table : TableRef}
    (h : s.openTable dao m = (.ok table, s')) :
    (∃ path used, dao = .file path ∧ table = .file path used ∧
        s.files.openTable path m.ns m.table = (.ok used, s'.files)) ∨
      table = dao.tableOf m ∧ s'.files = s.files := by
  cases dao with
  | none | memory =>
      obtain ⟨htable, rfl⟩ := Prod.mk.inj h
      obtain rfl := Except.ok.inj htable
      exact .inr ⟨rfl, rfl⟩
  | file path =>
      obtain ⟨hmap, rfl⟩ := Prod.mk.inj h
      obtain ⟨used, hused, rfl⟩ := exists_of_map_eq_ok hmap
      exact .inl ⟨path, used, rfl, rfl, Prod.ext hused rfl⟩
  | audited =>
      simp only [openTable] at h
      split at h
      next s₁ hask =>
        have hfiles := files_of_ask hask
        obtain ⟨htable, rfl⟩ := Prod.mk.inj h
        obtain rfl := Except.ok.inj htable
        exact .inr ⟨rfl, hfiles⟩
      · cases h

end Storage

namespace Cache

/-! ## Stores that are apart -/

/-- Every dao key has its own file, and the tables in use there have the names that their
sources ask for. -/
structure Opened.Tidy (ms : List SourceMeta) (o : Opened) : Prop where
  named : ∀ daoKey path, o.daos.get? daoKey = some (.file path) →
    ∃ memo, o.storage.files.opened.get? path = some memo ∧
      ∀ ns name, memo.get? ns = some name → ∃ m ∈ ms, m.ns = ns ∧ m.table = name
  single : ∀ daoKey daoKey' path, o.daos.get? daoKey = some (.file path) →
    o.daos.get? daoKey' = some (.file path) → daoKey = daoKey'

section Tidy

variable {ms : List SourceMeta} {journal : Journal} {o o' : Opened} {call : Call}

theorem Opened.Tidy.congr (h : o.Tidy ms) (hdaos : o'.daos = o.daos)
    (hopened : o'.storage.files.opened = o.storage.files.opened) : o'.Tidy ms := by
  constructor
  · intro daoKey path hdao
    rw [hdaos] at hdao
    rw [hopened]
    exact h.named daoKey path hdao
  · intro daoKey daoKey' path hdao hdao'
    rw [hdaos] at hdao hdao'
    exact h.single daoKey daoKey' path hdao hdao'

theorem files_onDriver (name : String) (o : Opened)
    {f : Driver → Storage → Except Error Unit × Storage}
    (hf : ∀ driver s, (f driver s).2.files = s.files) :
    (onDriver name o f).2.storage.files = o.storage.files := by
  rw [onDriver]
  split
  · rfl
  · exact hf _ _

/-- A file is opened for one dao key only. -/
theorem Opened.Tidy.openDao (h : o.Tidy ms) {daoKey name : String} {options : Json}
    (hcall : perform journal (.openDao daoKey name options) o = (.ok (), o')) : o'.Tidy ms := by
  obtain ⟨driver, dao, -, hopen, hdaos, -⟩ := perform_openDao_eq_ok hcall
  have hdao : ∀ key path, o'.daos.get? key = some (.file path) →
      daoKey = key ∧ dao = .file path ∨ daoKey ≠ key ∧ o.daos.get? key = some (.file path) := by
    intro key path hkey
    rw [hdaos, SortedMap.get?_insert] at hkey
    split at hkey
    next heq => exact .inl ⟨heq, Option.some.inj hkey⟩
    next hne => exact .inr ⟨hne, hkey⟩
  rcases Storage.files_openDao hopen with ⟨file, rfl, hfile⟩ | ⟨hnofile, hfiles⟩
  · obtain ⟨hclosed, hopened⟩ := FileStore.openDao_eq_ok hfile
    have hother : ∀ key path, o.daos.get? key = some (.file path) → file ≠ path := by
      rintro key path hkey rfl
      obtain ⟨memo, hmemo, -⟩ := h.named key file hkey
      rw [hclosed] at hmemo
      cases hmemo
    constructor
    · intro key path hkey
      rw [hopened, SortedMap.get?_insert]
      rcases hdao key path hkey with ⟨-, heq⟩ | ⟨-, hold⟩
      · obtain rfl := DaoRef.file.inj heq
        exact ⟨.empty, if_pos rfl, fun _ _ hno => nomatch hno⟩
      · rw [if_neg (hother key path hold)]
        exact h.named key path hold
    · intro key key' path hkey hkey'
      rcases hdao key path hkey with ⟨rfl, heq⟩ | ⟨-, hold⟩
      · obtain rfl := DaoRef.file.inj heq
        rcases hdao key' file hkey' with ⟨heq', -⟩ | ⟨-, hold'⟩
        · exact heq'
        · exact absurd rfl (hother key' file hold')
      · rcases hdao key' path hkey' with ⟨-, heq'⟩ | ⟨-, hold'⟩
        · exact absurd (DaoRef.file.inj heq') (hother key path hold)
        · exact h.single key key' path hold hold'
  · have hold : ∀ key path, o'.daos.get? key = some (.file path) →
        o.daos.get? key = some (.file path) := by
      intro key path hkey
      rcases hdao key path hkey with ⟨-, heq⟩ | ⟨-, hold⟩
      · exact absurd heq (hnofile path)
      · exact hold
    constructor
    · intro key path hkey
      rw [hfiles]
      exact h.named key path (hold key path hkey)
    · intro key key' path hkey hkey'
      exact h.single key key' path (hold key path hkey) (hold key' path hkey')

/-- A table gets the name that its source asks for. -/
theorem Opened.Tidy.openTable (h : o.Tidy ms) {daoKey : String} {m : SourceMeta} (hm : m ∈ ms)
    (hcall : perform journal (.openTable daoKey m) o = (.ok (), o')) : o'.Tidy ms := by
  obtain ⟨dao, table, hdao, hopen, hdaos, -⟩ := perform_openTable_eq_ok hcall
  rcases Storage.files_openTable hopen with ⟨file, used, rfl, -, hfile⟩ | ⟨-, hfiles⟩
  · obtain ⟨memo, hopened, hmemo⟩ := FileStore.openTable_eq_ok hfile
    obtain ⟨known, hknown, hnames⟩ := h.named daoKey file hdao
    rw [hknown, Option.getD_some] at hmemo
    constructor
    · intro key path hkey
      rw [hdaos] at hkey
      rw [hopened, SortedMap.get?_insert]
      split
      next hpath =>
        refine ⟨memo, rfl, fun ns name hname => ?_⟩
        rcases hmemo with ⟨-, rfl⟩ | ⟨-, rfl⟩
        · exact hnames ns name hname
        · rw [SortedMap.get?_insert] at hname
          split at hname
          next hns => exact ⟨m, hm, hns, Option.some.inj hname⟩
          · exact hnames ns name hname
      · exact h.named key path hkey
    · intro key key' path hkey hkey'
      rw [hdaos] at hkey hkey'
      exact h.single key key' path hkey hkey'
  · exact h.congr hdaos (congrArg FileStore.opened hfiles)

theorem Opened.Tidy.perform (h : o.Tidy ms)
    (hms : ∀ daoKey m, call = .openTable daoKey m → m ∈ ms)
    (hcall : perform journal call o = (.ok (), o')) : o'.Tidy ms := by
  cases call with
  | init name options =>
      have hsnd : (onDriver name o _).2 = o' := congrArg Prod.snd hcall
      rw [← hsnd]
      exact h.congr (onDriver_snd _ _ _).1
        (congrArg _ (files_onDriver name o fun driver s => s.files_init driver options))
  | validate name m =>
      have hsnd : (onDriver name o _).2 = o' := congrArg Prod.snd hcall
      rw [← hsnd]
      exact h.congr (onDriver_snd _ _ _).1
        (congrArg _ (files_onDriver name o fun driver s => s.files_validate driver m))
  | extend name m =>
      have hsnd : (onDriver name o _).2 = o' := congrArg Prod.snd hcall
      rw [← hsnd]
      exact h.congr (onDriver_snd _ _ _).1
        (congrArg _ (files_onDriver name o fun driver s => s.files_extend driver m))
  | openDao daoKey name options => exact h.openDao hcall
  | openTable daoKey m => exact h.openTable (hms daoKey m rfl) hcall
  | recover ns =>
      rw [← (Prod.mk.inj hcall).2]
      refine h.congr rfl ?_
      cases hpending : journal ns with
      | error e => rfl
      | ok pending =>
          cases pending with
          | nil => rfl
          | cons c cs => exact Storage.opened_recover _ (c :: cs) o.storage

end Tidy

end Cache

/-! ## Sharing -/

theorem Registry.Arises.eq_of_ns {r : Registry} (h : r.Arises) {m m' : SourceMeta}
    (hm : m ∈ r.sources.values) (hm' : m' ∈ r.sources.values) (hns : m.ns = m'.ns) : m = m' := by
  have hdistinct : (r.sources.values.map (·.ns)).Nodup := h.map_ns ▸ r.sources.nodup_keys
  exact List.inj_on_of_nodup_map hdistinct hm hm' hns

/-- Two sources are stored under one dao key that a database file is opened for, in tables of
one name. -/
def Configurator.Shares (c : Configurator) (ms : List SourceMeta) (m m' : SourceMeta) : Prop :=
  m.isPersisted = true ∧ m'.isPersisted = true ∧ m.table = m'.table ∧
    ∃ options options' first, c.tableOptions m.driver m.ns = some options ∧
      c.tableOptions m'.driver m'.ns = some options' ∧ options.daoKey = options'.daoKey ∧
      c.firstUnder options.daoKey ms = some first ∧ first.driver = Driver.file.name

namespace Cache

section Setups

variable {r : Registry} {c : Configurator} {journal : Journal} {storage : Storage} {plan : Plan}
  {final : Opened} {cache : Cache} {m m' first : SourceMeta} {source source' : Source}

theorem Opened.tidy_start (ms : List SourceMeta) (storage : Storage) :
    Opened.Tidy ms { storage } := by
  constructor
  · intro daoKey path hdao
    cases hdao
  · intro daoKey daoKey' path hdao
    cases hdao

theorem Built.mem_of_openTable (h : Built r c journal storage plan final cache)
    {daoKey : String} (hcall : Call.openTable daoKey m ∈ plan.calls) :
    m ∈ r.sources.values ∧ m.isPersisted = true := by
  have hplanned : ∃ options, (m, options) ∈ plan.stored := by
    simp only [Plan.calls, List.mem_append, List.mem_map, List.mem_flatMap] at hcall
    rcases hcall with
      (((⟨_, -, hno⟩ | ⟨_, -, hno⟩) | ⟨_, -, hno⟩) | ⟨⟨m', options⟩, hmem, heq⟩) | hno
    · cases hno
    · simp at hno
    · cases hno
    · obtain ⟨-, rfl⟩ := Call.openTable.inj heq
      exact ⟨options, hmem⟩
    · split at hno
      · cases hno
      · simp at hno
  obtain ⟨options, hmem⟩ := hplanned
  obtain ⟨hm, hstored, -⟩ := (Plan.lists_of_registry h.planned).mem_stored_iff.mp hmem
  exact ⟨hm, hstored⟩

theorem Built.tidy_perform (h : Built r c journal storage plan final cache) {call : Call}
    (hcall : call ∈ plan.calls) (o o' : Opened)
    (hperform : perform journal call o = (.ok (), o')) (ho : o.Tidy r.sources.values) :
    o'.Tidy r.sources.values := by
  refine ho.perform ?_ hperform
  rintro daoKey m rfl
  exact (h.mem_of_openTable hcall).1

theorem Built.tidy (h : Built r c journal storage plan final cache) :
    final.Tidy r.sources.values :=
  runCalls_keeps h.made (fun _ hcall => h.tidy_perform hcall) (Opened.tidy_start _ storage)

/-- Every stored source has the table that the store of its dao key keeps for it. -/
theorem Built.table_of_stored (h : Built r c journal storage plan final cache) (hr : r.Arises)
    (hm : m ∈ r.sources.values) (hstored : m.isPersisted = true)
    (hsource : cache.sources.get? m.ns = some source) :
    ∃ options first dao, c.tableOptions m.driver m.ns = some options ∧
      c.firstUnder options.daoKey r.sources.values = some first ∧
      final.daos.get? options.daoKey = some dao ∧ dao.driver.name = first.driver ∧
      source.table = dao.tableOf m := by
  obtain ⟨options, _, first, dao, source', hoptions, -, hfirst, hdao, hsource', -, hinstalled⟩ :=
    h.installed hr hm hstored
  obtain rfl := Option.some.inj (hsource.symm.trans hsource')
  obtain ⟨o, o', hmade, hopened, hopen⟩ := hinstalled.given
  have htable : source.table = dao.tableOf m := by
    rcases Storage.files_openTable hopen with ⟨path, used, rfl, hused, hfile⟩ | ⟨htable, -⟩
    · -- The name that the namespace uses already is the one that its source asks for.
      have htidy : o.Tidy r.sources.values :=
        hmade.before_of_keeps (fun _ hcall => h.tidy_perform hcall)
          (Opened.tidy_start _ storage)
      obtain ⟨memo, hmemo, hnames⟩ := htidy.named options.daoKey path hopened
      obtain ⟨_, -, hname⟩ := FileStore.openTable_eq_ok hfile
      rw [hmemo, Option.getD_some] at hname
      rw [hused]
      rcases hname with ⟨hknown, -⟩ | ⟨rfl, -⟩
      · obtain ⟨m', hm', hns, rfl⟩ := hnames m.ns used hknown
        rw [hr.eq_of_ns hm' hm hns]
        rfl
      · rfl
    · exact htable
  refine ⟨options, first, dao, hoptions, hfirst, hdao, ?_, htable⟩
  have hdriver := hinstalled.driver
  rw [htable] at hdriver
  rw [← hdriver]
  cases dao <;> rfl

/-- A source that no driver stores has no table. -/
theorem Built.table_of_not_stored (h : Built r c journal storage plan final cache)
    (hr : r.Arises) (hm : m ∈ r.sources.values) (hstored : m.isPersisted = false)
    (hsource : cache.sources.get? m.ns = some source) : source.table = .none := by
  obtain ⟨options, source', hsource', hstart⟩ := h.exists_source hr hm
  obtain rfl := Option.some.inj (hsource.symm.trans hsource')
  have hnone : final.tables.get? m.ns = none := by
    apply runCalls_keeps (P := fun o => o.tables.get? m.ns = none) h.made ?_ rfl
    intro call hcall o o' hperform ho
    rw [get?_tables_perform hperform, ho]
    intro hns
    cases call with
    | openTable daoKey m' =>
        obtain ⟨hm', hstored'⟩ := h.mem_of_openTable hcall
        rw [hr.eq_of_ns hm' hm (Option.some.inj hns), hstored] at hstored'
        cases hstored'
    | init | validate | extend | openDao | recover => cases hns
  rw [(startSource_eq_ok hstart).2.2.1, hnone]
  rfl

/-- Sources have a table in common exactly if they share it by their settings. -/
theorem Built.shares_iff (h : Built r c journal storage plan final cache) (hr : r.Arises)
    (hm : m ∈ r.sources.values) (hm' : m' ∈ r.sources.values) (hne : m.ns ≠ m'.ns)
    (hsource : cache.sources.get? m.ns = some source)
    (hsource' : cache.sources.get? m'.ns = some source') :
    c.Shares r.sources.values m m' ↔ source.table = source'.table ∧ source.table ≠ .none := by
  constructor
  · rintro ⟨hstored, hstored', hname, options, options', first, hoptions, hoptions', hkey, hfirst,
      hdriver⟩
    obtain ⟨o, f, dao, ho, hf, hdao, hdaoDriver, htable⟩ :=
      h.table_of_stored hr hm hstored hsource
    obtain ⟨o', f', dao', ho', -, hdao', -, htable'⟩ :=
      h.table_of_stored hr hm' hstored' hsource'
    obtain rfl := Option.some.inj (hoptions.symm.trans ho)
    obtain rfl := Option.some.inj (hoptions'.symm.trans ho')
    obtain rfl := Option.some.inj (hfirst.symm.trans hf)
    rw [← hkey] at hdao'
    obtain rfl := Option.some.inj (hdao.symm.trans hdao')
    have hfile : dao.driver = .file := Driver.name_injective (hdaoDriver.trans hdriver)
    rw [htable, htable']
    cases dao with
    | file path =>
        refine ⟨?_, TableRef.noConfusion⟩
        rw [DaoRef.tableOf, DaoRef.tableOf, hname]
    | none | memory | audited => cases hfile
  · rintro ⟨hsame, hsome⟩
    have hstored : m.isPersisted = true := by
      cases hstored : m.isPersisted with
      | true => rfl
      | false => exact absurd (h.table_of_not_stored hr hm hstored hsource) hsome
    have hstored' : m'.isPersisted = true := by
      cases hstored' : m'.isPersisted with
      | true => rfl
      | false =>
          exact absurd (hsame.trans (h.table_of_not_stored hr hm' hstored' hsource')) hsome
    obtain ⟨options, first, dao, hoptions, hfirst, hdao, hdriver, htable⟩ :=
      h.table_of_stored hr hm hstored hsource
    obtain ⟨options', first', dao', hoptions', -, hdao', -, htable'⟩ :=
      h.table_of_stored hr hm' hstored' hsource'
    rw [htable, htable'] at hsame
    rw [htable] at hsome
    -- Only database files know tables by anything but their namespace.
    cases dao with
    | none => exact absurd rfl hsome
    | memory =>
        cases dao' with
        | memory => exact absurd (TableRef.memory.inj hsame) hne
        | none | audited | file path => cases hsame
    | audited =>
        cases dao' with
        | audited => exact absurd (TableRef.audited.inj hsame) hne
        | none | memory | file path => cases hsame
    | file path =>
        cases dao' with
        | file path' =>
            obtain ⟨rfl, hname⟩ := TableRef.file.inj hsame
            exact ⟨hstored, hstored', hname, options, options', first, hoptions, hoptions',
              h.tidy.single _ _ path hdao hdao', hfirst, hdriver.symm⟩
        | none | memory | audited => cases hsame

end Setups

end Cache

end WriteBehind
