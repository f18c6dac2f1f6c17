import Pocc.Staking.PowerIndex
import Pocc.Staking.Keys
import Pocc.Types.BigInt

/-!
# The amino cache of `GetValidator`

x/staking/keeper/validator.go keeps the validators it decodes in `validatorCache`, a map keyed
by the raw amino bytes of the record, with `validatorCacheList` remembering the order of
insertion: past `aminoCacheSize` entries the oldest is dropped. A hit returns the cached
validator with its operator address overwritten by the address asked for; a miss decodes the
bytes with `MustUnmarshalValidator`, which panics on bytes that do not decode. The cache lives in
the keeper, so the check and the deliver contexts, each with its own store, share it.

The raw store is a map from bytes to bytes. Amino is not modelled: the decoder is a parameter,
`unmarshalValidator`.

Results:
* `getValidator_eq`: once every entry of the cache decodes from its key (`Sound`), a call on a
  store whose records name their own key (`Keyed`) answers as the store alone does
  (`storedValidator`), and keeps the cache sound;
* `getValidators_eq`: the same for any sequence of calls;
* `getValidator_depends_on_cache`: on a store whose record does not name its key, the second of
  two equal calls answers differently from the first;
* `Coherent.getValidator`, `Coherent.length_entries_le`: the list stays in step with the map,
  which never holds more than `aminoCacheSize` entries;
* `ValidatorInts.read_runCalls`: a hit returns a copy that shares its big integers with the
  cache, and no arithmetic of the caller changes them (`runCalls_extends`);
* `validator_cache_transparent`: the above, and in every reachable world the raw store that
  encodes it is keyed and answers as the typed store.
-/

namespace Pocc

namespace Staking

/-- `aminoCacheSize`. -/
def aminoCacheSize : Nat := 500

/-- `cachedValidator`: a decoded validator and the amino bytes it was decoded from. -/
structure CachedValidator where
  val : Validator
  marshalled : Bytes
  deriving DecidableEq, Repr

/-- The keeper's `validatorCache`, keyed by the raw bytes, and `validatorCacheList`, front
first. -/
structure ValidatorCache where
  validatorCache : SortedMap Bytes CachedValidator
  validatorCacheList : List CachedValidator

namespace ValidatorCache

/-- The cache of a new keeper. -/
def empty : ValidatorCache := ⟨.empty, []⟩

/-- The insertion of a miss: store the entry, push it at the back of the list, and drop the
front element once the list is longer than `aminoCacheSize`. -/
def add (cache : ValidatorCache) (strValue : Bytes) (validator : Validator) : ValidatorCache :=
  let cachedVal : CachedValidator := ⟨validator, strValue⟩
  let validatorCache := cache.validatorCache.insert strValue cachedVal
  let validatorCacheList := cache.validatorCacheList ++ [cachedVal]
  if aminoCacheSize < validatorCacheList.length then
    match validatorCacheList with
    | valToRemove :: rest => ⟨validatorCache.erase valToRemove.marshalled, rest⟩
    -- the list was just extended, so it has a front element
    | [] => ⟨validatorCache, []⟩
  else ⟨validatorCache, validatorCacheList⟩

section Codec

variable (unmarshalValidator : Bytes → Except String Validator)

/-- `MustUnmarshalValidator`: panic on bytes that do not decode. -/
def mustUnmarshalValidator (value : Bytes) : Except SdkError Validator :=
  match unmarshalValidator value with
  | .ok validator => pure validator
  | .error err => throw (.panic err)

/-- `Keeper.GetValidator` on the raw store of a context; `none` is `found = false`. -/
def getValidator (cache : ValidatorCache) (store : SortedMap Bytes Bytes) (addr : ValAddress) :
    Except SdkError (Option Validator × ValidatorCache) :=
  match store.find? (getValidatorKey addr) with
  | none => pure (none, cache)
  | some value =>
    match cache.validatorCache.find? value with
    | some val => pure (some { val.val with operatorAddress := addr }, cache)
    | none => do
      let validator ← mustUnmarshalValidator unmarshalValidator value
      let cache := cache.add value validator
      -- the source decodes the bytes a second time for the value it returns
      let validator ← mustUnmarshalValidator unmarshalValidator value
      pure (some validator, cache)

/-- A sequence of `GetValidator` calls, each on the store of its own context, with the one cache
of the keeper. -/
def getValidators (cache : ValidatorCache) :
    List (SortedMap Bytes Bytes × ValAddress) → Except SdkError (List (Option Validator))
  | [] => pure []
  | (store, addr) :: calls => do
    let (validator, cache) ← cache.getValidator unmarshalValidator store addr
    let rest ← getValidators cache calls
    pure (validator :: rest)

end Codec

end ValidatorCache

/-! ## What the cache must not change -/

namespace ValidatorCache

section Codec

variable (unmarshalValidator : Bytes → Except String Validator)

/-- `GetValidator` without the cache: the decoded record, under the address asked for. -/
def storedValidator (store : SortedMap Bytes Bytes) (addr : ValAddress) :
    Except SdkError (Option Validator) :=
  match store.find? (getValidatorKey addr) with
  | none => pure none
  | some value =>
    (mustUnmarshalValidator unmarshalValidator value).map fun validator =>
      some { validator with operatorAddress := addr }

/-- Every entry of the cache decodes from the bytes it is stored under. -/
def Sound (cache : ValidatorCache) : Prop :=
  ∀ value val, cache.validatorCache.find? value = some val → unmarshalValidator value = .ok val.val

/-- Every record of the raw store decodes to a validator whose operator address is the
address of the record's key, as `SetValidator` writes them. -/
def Keyed (store : SortedMap Bytes Bytes) : Prop :=
  ∀ addr value validator, store.find? (getValidatorKey addr) = some value →
    unmarshalValidator value = .ok validator → validator.operatorAddress = addr

variable {unmarshalValidator}

theorem mustUnmarshalValidator_eq_ok {value : Bytes} {validator : Validator} :
    mustUnmarshalValidator unmarshalValidator value = .ok validator ↔
      unmarshalValidator value = .ok validator := by
  unfold mustUnmarshalValidator
  cases unmarshalValidator value with
  | ok decoded => simp only [pure, Except.pure, Except.ok.injEq]
  | error err => exact ⟨fun h => (nomatch h), fun h => (nomatch h)⟩

theorem sound_empty : Sound unmarshalValidator empty := fun _ _ found => nomatch found

/-- Adding what the bytes decode to keeps the cache sound; the eviction only removes. -/
theorem Sound.add {cache : ValidatorCache} (sound : Sound unmarshalValidator cache)
    {value : Bytes} {validator : Validator} (decoded : unmarshalValidator value = .ok validator) :
    Sound unmarshalValidator (cache.add value validator) := by
  -- both lists of entries the insertion can leave are the inserted map, maybe with a key erased
  have inserted : Sound unmarshalValidator
      ⟨cache.validatorCache.insert value ⟨validator, value⟩, []⟩ := by
    intro value' val found
    rw [SortedMap.find?_insert] at found
    split at found
    · next same =>
      cases found
      rw [← same]
      exact decoded
    · exact sound value' val found
  unfold ValidatorCache.add
  dsimp only
  split
  · split
    · next valToRemove rest _ =>
      intro value' val found
      rw [SortedMap.find?_erase] at found
      split at found
      · cases found
      · exact inserted value' val found
    · exact inserted
  · exact inserted

/-- One call, on a keyed store, answers as the store alone and keeps the cache sound. -/
theorem getValidator_eq {cache : ValidatorCache} (sound : Sound unmarshalValidator cache)
    {store : SortedMap Bytes Bytes} (keyed : Keyed unmarshalValidator store) (addr : ValAddress) :
    ∃ cache', Sound unmarshalValidator cache' ∧
      cache.getValidator unmarshalValidator store addr =
        (storedValidator unmarshalValidator store addr).map (·, cache') := by
  unfold getValidator storedValidator
  cases stored : store.find? (getValidatorKey addr) with
  | none => exact ⟨cache, sound, rfl⟩
  | some value =>
    dsimp only
    cases hit : cache.validatorCache.find? value with
    | some val =>
      -- a hit: the entry is what the bytes decode to
      have decoded := sound value val hit
      refine ⟨cache, sound, ?_⟩
      simp [mustUnmarshalValidator, decoded, Except.map]
      rfl
    | none =>
      dsimp only
      cases decoded : unmarshalValidator value with
      | error err =>
        refine ⟨cache, sound, ?_⟩
        simp [mustUnmarshalValidator, decoded]
        rfl
      | ok validator =>
        -- a miss on a keyed record: the decoded validator already names the address
        have named : validator.operatorAddress = addr := keyed addr value validator stored decoded
        refine ⟨cache.add value validator, sound.add decoded, ?_⟩
        simp only [mustUnmarshalValidator, decoded]
        rw [← named]
        rfl

/-- Any sequence of calls, each on a keyed store, answers as the stores alone. -/
theorem getValidators_eq {cache : ValidatorCache} (sound : Sound unmarshalValidator cache)
    {calls : List (SortedMap Bytes Bytes × ValAddress)}
    (keyed : ∀ call ∈ calls, Keyed unmarshalValidator call.1) :
    cache.getValidators unmarshalValidator calls =
      calls.mapM fun call => storedValidator unmarshalValidator call.1 call.2 := by
  induction calls generalizing cache with
  | nil => rfl
  | cons call calls ih =>
    obtain ⟨store, addr⟩ := call
    obtain ⟨cache', sound', step⟩ :=
      getValidator_eq sound (keyed (store, addr) List.mem_cons_self) addr
    have rest := ih sound' fun call member => keyed call (List.mem_cons_of_mem _ member)
    simp only [getValidators, List.mapM_cons, step]
    cases storedValidator unmarshalValidator store addr with
    | error err => rfl
    | ok validator =>
      simp only [Except.map, bind, Except.bind]
      rw [rest]

/-- A call keeps the cache sound, on any store: a hit changes nothing, a miss adds what it
decoded. -/
theorem Sound.getValidator {cache cache' : ValidatorCache} (sound : Sound unmarshalValidator cache)
    {store : SortedMap Bytes Bytes} {addr : ValAddress} {r : Option Validator}
    (called : cache.getValidator unmarshalValidator store addr = .ok (r, cache')) :
    Sound unmarshalValidator cache' := by
  unfold ValidatorCache.getValidator at called
  split at called
  · cases called
    exact sound
  · split at called
    · cases called
      exact sound
    · obtain ⟨validator, decoded, rest⟩ := Fallible.bind_eq_ok.mp called
      obtain ⟨validator', -, stored⟩ := Fallible.bind_eq_ok.mp rest
      cases Fallible.pure_eq_ok.mp stored
      exact sound.add (mustUnmarshalValidator_eq_ok.mp decoded)

/-- Two equal calls on a store whose record under `addr` is the only one: the first decodes
the bytes, the second is a hit and overwrites the operator address with `addr`. -/
theorem getValidator_depends_on_cache (addr value : Bytes) :
    empty.getValidators unmarshalValidator
        [(SortedMap.empty.insert (getValidatorKey addr) value, addr),
          (SortedMap.empty.insert (getValidatorKey addr) value, addr)] =
      (mustUnmarshalValidator unmarshalValidator value).map fun validator =>
        [some validator, some { validator with operatorAddress := addr }] := by
  cases decoded : unmarshalValidator value with
  | error err => simp [getValidators, getValidator, mustUnmarshalValidator, decoded, empty]; rfl
  | ok validator =>
    simp [getValidators, getValidator, mustUnmarshalValidator, decoded, empty, add,
      aminoCacheSize]
    rfl

end Codec

/-! ## The eviction order -/

/-- The list holds the keys of the map, each once, and no more than `aminoCacheSize` of
them. -/
structure Coherent (cache : ValidatorCache) : Prop where
  keys : ∀ value, (cache.validatorCache.find? value).isSome ↔
    value ∈ cache.validatorCacheList.map (·.marshalled)
  nodup : (cache.validatorCacheList.map (·.marshalled)).Nodup
  bounded : cache.validatorCacheList.length ≤ aminoCacheSize

theorem coherent_empty : Coherent empty := ⟨fun _ => by simp [empty], List.nodup_nil, by simp [empty]⟩

/-- Dropping the front of the list and its key from the map keeps the two in step. -/
theorem keys_evict {m : SortedMap Bytes CachedValidator} {front : CachedValidator}
    {rest : List CachedValidator}
    (keys : ∀ value, (m.find? value).isSome ↔ value ∈ (front :: rest).map (·.marshalled))
    (nodup : ((front :: rest).map (·.marshalled)).Nodup) (value : Bytes) :
    ((m.erase front.marshalled).find? value).isSome ↔ value ∈ rest.map (·.marshalled) := by
  rw [SortedMap.find?_erase]
  split
  · next same =>
    -- the front key occurs once
    subst same
    simpa using (List.nodup_cons.mp nodup).1
  · next other =>
    rw [keys value, List.map_cons, List.mem_cons]
    exact ⟨fun member => member.resolve_left (Ne.symm other), .inr⟩

/-- A miss inserts a key the map does not have. -/
theorem Coherent.add {cache : ValidatorCache} (coherent : Coherent cache) {value : Bytes}
    (missing : cache.validatorCache.find? value = none) (validator : Validator) :
    Coherent (cache.add value validator) := by
  have fresh : value ∉ cache.validatorCacheList.map (·.marshalled) := fun member => by
    simpa [missing] using (coherent.keys value).mpr member
  -- the inserted map and the extended list, before any eviction
  have keys : ∀ value', ((cache.validatorCache.insert value ⟨validator, value⟩).find?
      value').isSome ↔ value' ∈ (cache.validatorCacheList ++ [CachedValidator.mk validator value]).map
        (·.marshalled) := fun value' => by
    rw [SortedMap.find?_insert, List.map_append, List.mem_append, ← coherent.keys value']
    by_cases same : value = value'
    · subst same
      simp
    · simp [same, Ne.symm same]
  have nodup :
      ((cache.validatorCacheList ++ [CachedValidator.mk validator value]).map (·.marshalled)).Nodup := by
    rw [List.map_append, List.nodup_append]
    exact ⟨coherent.nodup, List.nodup_singleton _, by simpa using fresh⟩
  unfold ValidatorCache.add
  dsimp only
  split
  · next full =>
    split
    · next front rest extended =>
      rw [extended] at keys nodup full
      refine ⟨keys_evict keys nodup, (List.nodup_cons.mp (by simpa using nodup)).2, ?_⟩
      have grown : (front :: rest).length = cache.validatorCacheList.length + 1 := by
        rw [← extended, List.length_append, List.length_singleton]
      have := coherent.bounded
      show rest.length ≤ aminoCacheSize
      simp only [List.length_cons] at grown
      omega
    · next empty => simp at empty
  · next within =>
    refine ⟨keys, nodup, ?_⟩
    show (cache.validatorCacheList ++ [CachedValidator.mk validator value]).length ≤ aminoCacheSize
    omega

theorem Coherent.getValidator {unmarshalValidator : Bytes → Except String Validator}
    {cache cache' : ValidatorCache} (coherent : Coherent cache)
    {store : SortedMap Bytes Bytes} {addr : ValAddress} {r : Option Validator}
    (called : cache.getValidator unmarshalValidator store addr = .ok (r, cache')) :
    Coherent cache' := by
  unfold ValidatorCache.getValidator at called
  split at called
  · cases called
    exact coherent
  · split at called
    · cases called
      exact coherent
    · next missing =>
      obtain ⟨validator, -, rest⟩ := Fallible.bind_eq_ok.mp called
      obtain ⟨validator', -, stored⟩ := Fallible.bind_eq_ok.mp rest
      cases Fallible.pure_eq_ok.mp stored
      exact coherent.add missing validator

/-- The map has no more entries than the list, so never more than `aminoCacheSize`. -/
theorem Coherent.length_entries_le {cache : ValidatorCache} (coherent : Coherent cache) :
    cache.validatorCache.entries.length ≤ aminoCacheSize := by
  have covered : cache.validatorCache.entries.map Prod.fst ⊆
      cache.validatorCacheList.map (·.marshalled) := fun value member => by
    obtain ⟨⟨key, val⟩, entry, rfl⟩ := List.mem_map.mp member
    exact (coherent.keys key).mp (by simp [SortedMap.find?_of_mem entry])
  calc cache.validatorCache.entries.length
      = (cache.validatorCache.entries.map Prod.fst).length := (List.length_map _).symm
    _ ≤ (cache.validatorCacheList.map (·.marshalled)).length :=
      (List.subperm_of_subset (SortedMap.nodup_keys _) covered).length_le
    _ = cache.validatorCacheList.length := List.length_map _
    _ ≤ aminoCacheSize := coherent.bounded

/-! ## The typed store behind the raw one -/

section Codec

variable {unmarshalValidator : Bytes → Except String Validator}

/-- The raw store holds, under the key of each address, bytes that decode to the validator the
typed store has there, and nothing where it has none. -/
def Encodes (unmarshalValidator : Bytes → Except String Validator)
    (store : SortedMap Bytes Bytes) (s : Store) : Prop :=
  ∀ addr, (store.find? (getValidatorKey addr)).map unmarshalValidator = (s.getValidator addr).map .ok

/-- A raw store that encodes a store whose validators are kept under their own address is
keyed. -/
theorem Encodes.keyed {store : SortedMap Bytes Bytes} {s : Store}
    (encodes : Encodes unmarshalValidator store s) (structural : Structural s) :
    Keyed unmarshalValidator store := by
  intro addr value validator stored decoded
  have agree := encodes addr
  rw [stored, Option.map_some, decoded] at agree
  cases found : s.getValidator addr with
  | none => rw [found] at agree; cases agree
  | some v =>
    rw [found, Option.map_some, Option.some_inj, Except.ok.injEq] at agree
    rw [agree]
    exact structural.keyed addr v found

theorem Encodes.storedValidator_eq {store : SortedMap Bytes Bytes} {s : Store}
    (encodes : Encodes unmarshalValidator store s) (structural : Structural s) (addr : ValAddress) :
    storedValidator unmarshalValidator store addr = .ok (s.getValidator addr) := by
  have agree := encodes addr
  unfold storedValidator
  cases found : s.getValidator addr with
  | none =>
    rw [found, Option.map_none, Option.map_eq_none_iff] at agree
    rw [agree]
    rfl
  | some v =>
    rw [found, Option.map_some] at agree
    obtain ⟨value, stored, decoded⟩ := Option.map_eq_some_iff.mp agree
    rw [stored]
    dsimp only
    rw [mustUnmarshalValidator, decoded, ← structural.keyed addr v found]
    rfl

end Codec

/-! ## The big integers a hit shares with the cache -/

/-- The big integers of a `Validator` struct. A hit returns a copy of the cached struct, which
holds the same pointers. -/
structure ValidatorInts where
  tokens : IntRef
  delegatorShares : DecRef
  rate : DecRef
  maxRate : DecRef
  maxChangeRate : DecRef
  minSelfDelegation : IntRef

namespace ValidatorInts

/-- The pointers. -/
def cells (ints : ValidatorInts) : List Nat :=
  [ints.tokens.i, ints.delegatorShares.int, ints.rate.int, ints.maxRate.int,
    ints.maxChangeRate.int, ints.minSelfDelegation.i]

/-- The validator a struct with these pointers holds: the values behind them, and the other
fields of `v`. -/
def read (h : Heap Int) (ints : ValidatorInts) (v : Validator) : Validator :=
  { v with
    tokens := ints.tokens.read h
    delegatorShares := ints.delegatorShares.read h
    commission := { v.commission with
      rate := ints.rate.read h
      maxRate := ints.maxRate.read h
      maxChangeRate := ints.maxChangeRate.read h }
    minSelfDelegation := ints.minSelfDelegation.read h }

/-- Whatever methods a caller runs, on the returned copy or any other pointers, the struct in
the cache keeps its values. -/
theorem read_runCalls {h h' : Heap Int} {calls : List Call} (ran : runCalls h calls = .ok h')
    {ints : ValidatorInts} (allocated : ∀ p ∈ ints.cells, p < h.size) (v : Validator) :
    ints.read h' v = ints.read h v := by
  have kept : ∀ p ∈ ints.cells, h'.read p = h.read p := fun p member =>
    Heap.read_of_extends (runCalls_extends ran) (allocated p member)
  simp only [read, IntRef.read, DecRef.read]
  -- each of the six pointers was allocated before the calls
  rw [kept ints.tokens.i (by simp [cells]), kept ints.delegatorShares.int (by simp [cells]),
    kept ints.rate.int (by simp [cells]), kept ints.maxRate.int (by simp [cells]),
    kept ints.maxChangeRate.int (by simp [cells]), kept ints.minSelfDelegation.i (by simp [cells])]

end ValidatorInts

/-- The cache of `GetValidator` is invisible on keyed stores. The empty cache is sound and
coherent, and every call keeps it so, hence never larger than `aminoCacheSize`; any sequence of
calls, each on a keyed store, answers as the stores without the cache; the raw store of a
reachable world is keyed, and answers as the typed store; and no arithmetic on a returned
validator changes the big integers the cache shares with it. -/
theorem validator_cache_transparent (unmarshalValidator : Bytes → Except String Validator) :
    (Sound unmarshalValidator empty ∧ Coherent empty) ∧
    (∀ (cache cache' : ValidatorCache) store addr r, Sound unmarshalValidator cache →
      Coherent cache → cache.getValidator unmarshalValidator store addr = .ok (r, cache') →
      Sound unmarshalValidator cache' ∧ Coherent cache' ∧
        cache'.validatorCache.entries.length ≤ aminoCacheSize) ∧
    (∀ (cache : ValidatorCache) calls, Sound unmarshalValidator cache →
      (∀ call ∈ calls, Keyed unmarshalValidator call.1) →
      cache.getValidators unmarshalValidator calls =
        calls.mapM fun call => storedValidator unmarshalValidator call.1 call.2) ∧
    (∀ {τ : Type} (k : Keeper τ) (w : World τ) store, Reachable k w →
      Encodes unmarshalValidator store w.store →
      Keyed unmarshalValidator store ∧
        ∀ addr, storedValidator unmarshalValidator store addr = .ok (w.store.getValidator addr)) ∧
    ∀ h calls h' (ints : ValidatorInts) v, (∀ p ∈ ints.cells, p < h.size) →
      runCalls h calls = .ok h' → ints.read h' v = ints.read h v := by
  refine ⟨⟨sound_empty, coherent_empty⟩, fun cache cache' store addr r sound coherent called => ?_,
    fun cache calls sound keyed => getValidators_eq sound keyed,
    fun k w store reach encodes => ?_, fun h calls h' ints v allocated ran => ?_⟩
  · have coherent' := coherent.getValidator called
    exact ⟨sound.getValidator called, coherent', coherent'.length_entries_le⟩
  · have structural := reach.structural
    exact ⟨encodes.keyed structural, encodes.storedValidator_eq structural⟩
  · exact ValidatorInts.read_runCalls ran allocated v

end ValidatorCache

end Staking

end Pocc
