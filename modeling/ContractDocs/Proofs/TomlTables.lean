import ContractDocs.Proofs.KeyedLists
import ContractDocs.Toml.Reader

/-! The tables of a TOML document. However a document is put together, header by header and key by
key, no table in it has a key twice. -/

namespace ContractDocs.Toml

/-- No table inside the value has a key twice. -/
inductive Value.Distinct : Value → Prop
  | string (text : String) : Distinct (.string text)
  | integer (number : Int) : Distinct (.integer number)
  | float (text : String) : Distinct (.float text)
  | boolean (value : Bool) : Distinct (.boolean value)
  | datetime (text : String) : Distinct (.datetime text)
  | array {items : List Value} : (∀ v ∈ items, Distinct v) → Distinct (.array items)
  | table {origin : Origin} {members : Members} :
      (members.map (·.1)).Nodup → (∀ m ∈ members, Distinct m.2) → Distinct (.table origin members)
  | tables {items : List Members} : (∀ members ∈ items, (members.map (·.1)).Nodup) →
      (∀ members ∈ items, ∀ m ∈ members, Distinct m.2) → Distinct (.tables items)

namespace Members

/-- No key stands here twice, nor in any table inside. -/
structure Distinct (ms : Members) : Prop where
  nodup : (ms.map (·.1)).Nodup
  values : ∀ m ∈ ms, m.2.Distinct

theorem Distinct.nil : Distinct [] := ⟨List.nodup_nil, by simp⟩

theorem Distinct.of_lookup {ms : Members} (h : ms.Distinct) {key : String} {v : Value}
    (hv : ms.lookup key = some v) : v.Distinct :=
  h.values (key, v) ((lookup_eq_some_iff_mem h.nodup).mp hv)

theorem Distinct.of_table {ms : Members} (h : ms.Distinct) {key : String} {origin : Origin}
    {inner : Members} (hv : ms.lookup key = some (.table origin inner)) : inner.Distinct := by
  cases h.of_lookup hv with
  | table hnodup hvalues => exact ⟨hnodup, hvalues⟩

theorem Distinct.of_tables {ms : Members} (h : ms.Distinct) {key : String} {items : List Members}
    (hv : ms.lookup key = some (.tables items)) : ∀ inner ∈ items, inner.Distinct := by
  cases h.of_lookup hv with
  | tables hnodup hvalues => exact fun inner hinner => ⟨hnodup inner hinner, hvalues inner hinner⟩

theorem Distinct.table {ms : Members} (h : ms.Distinct) (origin : Origin) :
    (Value.table origin ms).Distinct :=
  .table h.nodup h.values

theorem distinct_tables {items : List Members} (h : ∀ ms ∈ items, ms.Distinct) :
    (Value.tables items).Distinct :=
  .tables (fun ms hms => (h ms hms).nodup) fun ms hms => (h ms hms).values

theorem Distinct.append_new {ms : Members} (h : ms.Distinct) {key : String} {v : Value}
    (hv : v.Distinct) (hnew : ¬ (ms.lookup key).isSome = true) : Distinct (ms ++ [(key, v)]) := by
  have hkey : key ∉ ms.map (·.1) := by simpa using hnew
  constructor
  · rw [List.map_append, List.map_singleton]
    exact h.nodup.append (List.nodup_singleton key) (by simpa using hkey)
  · exact List.forall_mem_append.mpr ⟨h.values, by simpa using hv⟩

theorem Distinct.set {ms : Members} (h : ms.Distinct) (key : String) {v : Value}
    (hv : v.Distinct) : (ms.set key v).Distinct := by
  unfold Members.set
  split
  · constructor
    -- the keys stay as they are
    · rw [List.map_map]
      exact h.nodup
    · intro m hm
      obtain ⟨⟨k, old⟩, hmem, rfl⟩ := List.mem_map.mp hm
      by_cases hk : k = key
      · simpa [hk] using hv
      · simpa [hk] using h.values _ hmem
  next hnew => exact h.append_new hv hnew

theorem Distinct.set_table {ms changed : Members} (h : ms.Distinct) {p : String} {origin : Origin}
    {o : Option Members}
    (hchanged : o.map (fun inner => ms.set p (.table origin inner)) = some changed)
    (ho : ∀ inner, o = some inner → inner.Distinct) : changed.Distinct := by
  obtain ⟨inner, hinner, rfl⟩ := Option.map_eq_some_iff.mp hchanged
  exact h.set p ((ho inner hinner).table origin)

theorem Distinct.set_tables {ms changed : Members} (h : ms.Distinct) {p : String}
    {o : Option (List Members)}
    (hchanged : o.map (fun items => ms.set p (.tables items)) = some changed)
    (ho : ∀ items, o = some items → ∀ inner ∈ items, inner.Distinct) : changed.Distinct := by
  obtain ⟨items, hitems, rfl⟩ := Option.map_eq_some_iff.mp hchanged
  exact h.set p (distinct_tables (ho items hitems))

theorem Distinct.remove {ms : Members} (h : ms.Distinct) (key : String) :
    (ms.remove key).Distinct :=
  ⟨h.nodup.sublist (List.filter_sublist.map _), fun m hm => h.values m (List.mem_filter.mp hm).1⟩

/-- A change after which no key stands twice, if none did before. -/
def Keeps (f : Members → Option Members) : Prop :=
  ∀ ms changed, ms.Distinct → f ms = some changed → changed.Distinct

theorem keeps_of_eq {f : Members → Option Members}
    (h : ∀ ms changed, f ms = some changed → ms = changed) : Keeps f := by
  intro ms changed hms hchanged
  rwa [← h ms changed hchanged]

theorem Keeps.mapLast {f : Members → Option Members} (hf : Keeps f) {items changed : List Members}
    (h : ∀ ms ∈ items, ms.Distinct) (hchanged : mapLast f items = some changed) :
    ∀ ms ∈ changed, ms.Distinct := by
  fun_induction Members.mapLast f items generalizing changed with
  | case1 => cases hchanged
  | case2 ms =>
    obtain ⟨last, hlast, rfl⟩ := Option.map_eq_some_iff.mp hchanged
    simpa using hf ms last (h ms List.mem_cons_self) hlast
  | case3 ms rest _ ih =>
    obtain ⟨more, hmore, rfl⟩ := Option.map_eq_some_iff.mp hchanged
    obtain ⟨hms, hrest⟩ := List.forall_mem_cons.mp h
    exact List.forall_mem_cons.mpr ⟨hms, ih hrest hmore⟩

theorem keeps_insert (key : String) {v : Value} (hv : v.Distinct) (path : List String) :
    Keeps (insert key v path) := by
  induction path with
  | nil =>
    intro ms changed hms h
    rw [Members.insert] at h
    split at h
    · cases h
    next hnew =>
      obtain rfl := Option.some.inj h
      exact hms.append_new hv hnew
  | cons p path ih =>
    intro ms changed hms h
    rw [Members.insert] at h
    -- the path goes on in a new table, in one that is there or in the last of several
    split at h
    · exact hms.set_table h fun inner => ih [] inner .nil
    next hlookup => exact hms.set_table h fun inner => ih _ inner (hms.of_table hlookup)
    next hlookup =>
      split at h
      · cases h
      · exact hms.set_table h fun inner => ih _ inner (hms.of_table hlookup)
    next hlookup =>
      split at h
      · cases h
      · exact hms.set_tables h fun items => ih.mapLast (hms.of_tables hlookup)
    · cases h

theorem Keeps.descend {f : Members → Option Members} (hf : Keeps f) (path : List String) :
    Keeps (descend f path) := by
  induction path with
  | nil => exact hf
  | cons p path ih =>
    intro ms changed hms h
    rw [Members.descend] at h
    split at h
    · exact hms.set_table h fun inner => ih [] inner .nil
    next hlookup =>
      split at h
      · cases h
      · exact hms.set_table h fun inner => ih _ inner (hms.of_table hlookup)
    next hlookup => exact hms.set_tables h fun items => ih.mapLast (hms.of_tables hlookup)
    · cases h

theorem Distinct.reach? {path : List String} {ms inner : Members} (h : ms.Distinct)
    (hreach : reach? path ms = some inner) : inner.Distinct := by
  induction path generalizing ms with
  | nil =>
    obtain rfl := Option.some.inj hreach
    exact h
  | cons p path ih =>
    rw [Members.reach?] at hreach
    split at hreach
    next hlookup => exact ih (h.of_table hlookup) hreach
    next hlookup =>
      obtain ⟨last, hlast, hreach⟩ := Option.bind_eq_some_iff.mp hreach
      exact ih (h.of_tables hlookup last (List.mem_of_getLast? hlast)) hreach
    · cases hreach

end Members

open Members (Keeps)

namespace Draft

/-- Neither the closed tables nor the open one have a key twice. -/
structure Distinct (d : Draft) : Prop where
  root : d.root.Distinct
  current : d.current.Distinct

theorem Distinct.close {d : Draft} (h : d.Distinct) {ms : Members} (hclose : d.close = some ms) :
    ms.Distinct := by
  unfold Draft.close at hclose
  split at hclose
  · obtain rfl := Option.some.inj hclose
    exact h.current
  next key _ =>
    refine Keeps.descend ?_ d.path.dropLast _ _ h.root hclose
    intro ms changed hms hchanged
    split at hchanged
    · beta_reduce at hchanged
      split at hchanged
      · obtain rfl := Option.some.inj hchanged
        exact hms.set key (Members.distinct_tables (by simpa using h.current))
      next items hlookup =>
        obtain rfl := Option.some.inj hchanged
        have hitems := hms.of_tables hlookup
        exact hms.set key (Members.distinct_tables
          (List.forall_mem_append.mpr ⟨hitems, by simpa using h.current⟩))
      · cases hchanged
    · obtain rfl := Option.some.inj hchanged
      exact hms.set key (h.current.table _)

theorem Distinct.openTable {d opened : Draft} (h : d.Distinct) {path : List String}
    (hopen : d.openTable path = some opened) : opened.Distinct := by
  simp only [Draft.openTable, Option.bind_eq_bind, Option.bind_eq_some_iff, pure,
    Option.some.injEq] at hopen
  obtain ⟨closed, hclosed, key, -, checked, hchecked, parent, hparent, root, hroot, rfl⟩ := hopen
  -- the first descent only looks whether the table may be opened
  have hbefore : checked.Distinct := by
    refine Keeps.descend (Members.keeps_of_eq ?_) _ _ _ (h.close hclosed) hchecked
    intro ms changed hchanged
    split at hchanged
    · exact Option.some.inj hchanged
    · exact Option.some.inj hchanged
    · cases hchanged
  constructor
  · refine Keeps.descend ?_ _ _ _ hbefore hroot
    intro ms changed hms hchanged
    obtain rfl := Option.some.inj hchanged
    exact hms.remove key
  · dsimp only
    split
    next hlookup => exact (hbefore.reach? hparent).of_table hlookup
    · exact .nil

theorem Distinct.openRepeated {d opened : Draft} (h : d.Distinct) {path : List String}
    (hopen : d.openRepeated path = some opened) : opened.Distinct := by
  simp only [Draft.openRepeated, Option.bind_eq_bind, Option.bind_eq_some_iff, pure,
    Option.some.injEq] at hopen
  obtain ⟨closed, hclosed, key, -, root, hroot, rfl⟩ := hopen
  refine ⟨Keeps.descend (Members.keeps_of_eq ?_) _ _ _ (h.close hclosed) hroot, .nil⟩
  intro ms changed hchanged
  split at hchanged
  · exact Option.some.inj hchanged
  · exact Option.some.inj hchanged
  · cases hchanged

theorem Distinct.add {d added : Draft} (h : d.Distinct) {path : List String} {v : Value}
    (hv : v.Distinct) (hadd : d.add path v = some added) : added.Distinct := by
  simp only [Draft.add, Option.bind_eq_bind, Option.bind_eq_some_iff, pure,
    Option.some.injEq] at hadd
  obtain ⟨key, -, current, hcurrent, rfl⟩ := hadd
  exact ⟨h.root, Members.keeps_insert key hv _ _ _ h.current hcurrent⟩

end Draft

def ReadsDistinct (item : Reader Value) : Prop :=
  ∀ cs v rest, item cs = some (v, rest) → v.Distinct

theorem readsDistinct_scalar : ReadsDistinct scalar := by
  intro cs v rest h
  unfold scalar at h
  split at h
  · cases h
  · split at h
    · obtain ⟨⟨text, after⟩, -, heq⟩ := Option.map_eq_some_iff.mp h
      cases heq
      exact .string _
    · split at h
      · obtain ⟨after, -, heq⟩ := Option.map_eq_some_iff.mp h
        cases heq
        exact .boolean _
      · split at h
        · obtain ⟨after, -, heq⟩ := Option.map_eq_some_iff.mp h
          cases heq
          exact .boolean _
        · split at h
          · cases h
            exact .datetime _
          · obtain ⟨⟨found, after⟩, -, heq⟩ := Option.map_eq_some_iff.mp h
            cases found with
            | integer n =>
              cases heq
              exact .integer _
            | float text =>
              cases heq
              exact .float _

theorem ReadsDistinct.itemsFrom {item : Reader Value} (hitem : ReadsDistinct item) {fuel : Nat}
    {seen items : List Value} {cs rest : List Char} (hseen : ∀ v ∈ seen, v.Distinct)
    (h : itemsFrom item fuel seen cs = some (items, rest)) : ∀ v ∈ items, v.Distinct := by
  induction fuel generalizing seen cs with
  | zero => cases h
  | succ fuel ih =>
    have hmore {v : Value} (hv : v.Distinct) : ∀ w ∈ v :: seen, w.Distinct :=
      List.forall_mem_cons.mpr ⟨hv, hseen⟩
    rw [Toml.itemsFrom] at h
    split at h
    · cases h
      simpa using hseen
    · simp only [Option.bind_eq_bind, Option.bind_eq_some_iff] at h
      obtain ⟨⟨v, after⟩, hv, h⟩ := h
      split at h
      · exact ih (hmore (hitem _ _ _ hv)) h
      · cases h
        intro w hw
        exact hmore (hitem _ _ _ hv) w (List.mem_reverse.mp hw)
      · cases h

theorem ReadsDistinct.keyValue {item : Reader Value} (hitem : ReadsDistinct item)
    {cs rest : List Char} {path : List String} {v : Value}
    (h : keyValue item cs = some ((path, v), rest)) : v.Distinct := by
  simp only [Toml.keyValue, Option.bind_eq_bind, Option.bind_eq_some_iff, pure, Option.some.injEq,
    Prod.mk.injEq] at h
  obtain ⟨_, -, _, -, ⟨found, after⟩, hfound, ⟨-, rfl⟩, -⟩ := h
  exact hitem _ _ _ hfound

theorem ReadsDistinct.membersFrom {item : Reader Value} (hitem : ReadsDistinct item) {fuel : Nat}
    {seen members : Members} {cs rest : List Char} (hseen : seen.Distinct)
    (h : membersFrom item fuel seen cs = some (members, rest)) : members.Distinct := by
  induction fuel generalizing seen cs with
  | zero => cases h
  | succ fuel ih =>
    simp only [Toml.membersFrom, Option.bind_eq_bind, Option.bind_eq_some_iff] at h
    obtain ⟨⟨⟨path, v⟩, after⟩, hkeyValue, key, -, added, hadded, h⟩ := h
    have hv : v.Distinct := hitem.keyValue hkeyValue
    have hdistinct : added.Distinct := Members.keeps_insert key hv _ _ _ hseen hadded
    split at h
    · exact ih hdistinct h
    · cases h
      exact hdistinct
    · cases h

theorem readsDistinct_value (fuel room : Nat) : ReadsDistinct (value fuel room) := by
  induction room using Nat.strongRecOn with
  | ind room ih =>
    intro cs v rest h
    unfold value at h
    split at h
    · cases h
    · cases h
    next _ inside =>
      -- what is inside is read with less room
      obtain ⟨⟨items, after⟩, hitems, heq⟩ := Option.map_eq_some_iff.mp h
      cases heq
      exact .array ((ih inside (by omega)).itemsFrom (List.forall_mem_nil _) hitems)
    next _ inside =>
      split at h
      · cases h
        exact Members.Distinct.nil.table _
      · obtain ⟨⟨members, after⟩, hmembers, heq⟩ := Option.map_eq_some_iff.mp h
        cases heq
        exact ((ih inside (by omega)).membersFrom .nil hmembers).table _
    · exact readsDistinct_scalar _ _ _ h

theorem distinct_documentFrom {size fuel : Nat} {d : Draft} {cs : List Char} {ms : Members}
    (hd : d.Distinct) (h : documentFrom size fuel d cs = some ms) : ms.Distinct := by
  induction fuel generalizing d cs with
  | zero => exact hd.close h
  | succ fuel ih =>
    rw [documentFrom] at h
    split at h
    · exact hd.close h
    · simp only [Option.bind_eq_bind, Option.bind_eq_some_iff] at h
      obtain ⟨_, -, opened, hopened, h⟩ := h
      exact ih (hd.openRepeated hopened) h
    · simp only [Option.bind_eq_bind, Option.bind_eq_some_iff] at h
      obtain ⟨_, -, opened, hopened, h⟩ := h
      exact ih (hd.openTable hopened) h
    · simp only [Option.bind_eq_bind, Option.bind_eq_some_iff] at h
      obtain ⟨⟨⟨path, v⟩, after⟩, hkeyValue, added, hadded, _, -, h⟩ := h
      exact ih (hd.add ((readsDistinct_value _ _).keyValue hkeyValue) hadded) h

theorem distinct_parse {text : String} {document : Members} (h : parse text = some document) :
    document.Distinct :=
  distinct_documentFrom ⟨.nil, .nil⟩ h

end ContractDocs.Toml
