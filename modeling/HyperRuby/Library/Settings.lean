import HyperRuby.Library.Fallible
import Mathlib.Data.List.Induction
import Mathlib.Data.List.Nodup
import Mathlib.Data.List.TakeWhile

/-! # Configuration by keys

The keys of a hash are looked up one by one in a fixed order. A value that is there is converted
and stored; the first one that cannot be converted ends the call, and what was stored before it
stays. Where every key has a place of its own, any sequence of such calls comes to one call that
succeeds, with the values of the last calls that got as far.
-/
namespace HyperRuby.Library

variable {κ ν ε σ τ : Type}

/-- A key, and what a value for it does to the configuration. -/
structure Setting (κ ν ε σ : Type) where
  key : κ
  write : ν → Except ε (σ → σ)

namespace Setting

def of (key : κ) (convert : ν → Except ε τ) (store : τ → σ → σ) : Setting κ ν ε σ :=
  ⟨key, fun value => (convert value).map store⟩

def read (s : Setting κ ν ε σ) (hash : κ → Option ν) : Fallible σ ε Unit :=
  match hash s.key with
  | none => pure ()
  | some value =>
    match s.write value with
    | .ok store => modify store
    | .error error => throw error

def readAll (hash : κ → Option ν) : List (Setting κ ν ε σ) → Fallible σ ε Unit
  | [] => pure ()
  | s :: settings => do
    s.read hash
    readAll hash settings

def accepts (s : Setting κ ν ε σ) (hash : κ → Option ν) : Bool :=
  match hash s.key with
  | none => true
  | some value => (s.write value).isOk

/-- What the value of the key does, if there is one that can be converted. -/
def effect (s : Setting κ ν ε σ) (hash : κ → Option ν) (config : σ) : σ :=
  match hash s.key with
  | none => config
  | some value =>
    match s.write value with
    | .ok store => store config
    | .error _ => config

def effects (hash : κ → Option ν) (settings : List (Setting κ ν ε σ)) (config : σ) : σ :=
  settings.foldl (fun config s => s.effect hash config) config

/-- The settings that a call gets to store. -/
def stored (hash : κ → Option ν) (settings : List (Setting κ ν ε σ)) : List (Setting κ ν ε σ) :=
  settings.takeWhile (fun s => s.accepts hash)

section Calls
variable {s : Setting κ ν ε σ} {settings : List (Setting κ ν ε σ)} {hash : κ → Option ν}

theorem read_accepts (h : s.accepts hash = true) (config : σ) :
    (s.read hash).outcome config = .ok () ∧ (s.read hash).after config = s.effect hash config := by
  rw [accepts] at h
  rw [read, effect]
  cases hvalue : hash s.key with
  | none => exact ⟨rfl, rfl⟩
  | some value =>
    rw [hvalue] at h
    cases hwrite : s.write value with
    | ok store => simp only [hwrite]; exact ⟨rfl, rfl⟩
    | error error =>
      dsimp only at h
      rw [hwrite] at h
      cases h

theorem read_refuses (h : s.accepts hash = false) (config : σ) :
    ∃ error, (s.read hash).outcome config = .error error ∧ (s.read hash).after config = config := by
  rw [accepts] at h
  rw [read]
  cases hvalue : hash s.key with
  | none =>
    rw [hvalue] at h
    cases h
  | some value =>
    rw [hvalue] at h
    dsimp only at h ⊢
    cases hwrite : s.write value with
    | ok store =>
      rw [hwrite] at h
      cases h
    | error error => exact ⟨error, rfl, rfl⟩

/-- A call stores the values in front of the first that cannot be converted. -/
theorem after_readAll (config : σ) :
    (readAll hash settings).after config = effects hash (stored hash settings) config := by
  induction settings generalizing config with
  | nil => rfl
  | cons s settings ih =>
    rw [readAll, Fallible.after_bind, stored, List.takeWhile_cons]
    cases h : s.accepts hash with
    | true =>
      rcases read_accepts h config with ⟨houtcome, hafter⟩
      rw [houtcome, hafter]
      exact ih _
    | false =>
      rcases read_refuses h config with ⟨error, houtcome, hafter⟩
      rw [houtcome]
      exact hafter

theorem outcome_readAll (h : ∀ s ∈ settings, s.accepts hash = true) (config : σ) :
    (readAll hash settings).outcome config = .ok () := by
  induction settings generalizing config with
  | nil => rfl
  | cons s settings ih =>
    rw [readAll, Fallible.outcome_bind, (read_accepts (h s List.mem_cons_self) config).1]
    exact ih (fun t ht => h t (List.mem_cons_of_mem _ ht)) _

end Calls

/-- Of two values for the key the second one stays. -/
def Overwrites (s : Setting κ ν ε σ) : Prop :=
  ∀ value value' store store', s.write value = .ok store → s.write value' = .ok store' →
    ∀ config, store' (store config) = store' config

/-- Values for the two keys do not meet. -/
def Commutes (s t : Setting κ ν ε σ) : Prop :=
  ∀ value value' store store', s.write value = .ok store → t.write value' = .ok store' →
    ∀ config, store (store' config) = store' (store config)

/-- Every key has a place of its own. -/
structure Independent (settings : List (Setting κ ν ε σ)) : Prop where
  keys : (settings.map key).Nodup
  overwrites : ∀ s ∈ settings, s.Overwrites
  commutes : settings.Pairwise Commutes

section Of
variable {τ' : Type} {k k' : κ} {convert : ν → Except ε τ} {convert' : ν → Except ε τ'}
  {store : τ → σ → σ} {store' : τ' → σ → σ}

theorem write_of {value : ν} {f : σ → σ} (h : (of k convert store).write value = .ok f) :
    ∃ x, f = store x := by
  dsimp only [of] at h
  cases hvalue : convert value with
  | ok x =>
    rw [hvalue] at h
    exact ⟨x, (Except.ok.inj h).symm⟩
  | error error =>
    rw [hvalue] at h
    cases h

theorem overwrites_of (h : ∀ x y config, store y (store x config) = store y config) :
    (of k convert store).Overwrites := by
  intro value value' f f' hf hf' config
  rcases write_of hf with ⟨x, rfl⟩
  rcases write_of hf' with ⟨y, rfl⟩
  exact h x y config

theorem commutes_of (h : ∀ x y config, store x (store' y config) = store' y (store x config)) :
    (of k convert store).Commutes (of k' convert' store') := by
  intro value value' f f' hf hf' config
  rcases write_of hf with ⟨x, rfl⟩
  rcases write_of hf' with ⟨y, rfl⟩
  exact h x y config

end Of

/-- The values that a call gets to store. -/
def taken [DecidableEq κ] (settings : List (Setting κ ν ε σ)) (hash : κ → Option ν) (k : κ) :
    Option ν :=
  if k ∈ (stored hash settings).map key then hash k else none

/-- For each key, the value of the last call that got to store one. -/
def merged [DecidableEq κ] (settings : List (Setting κ ν ε σ)) (calls : List (κ → Option ν)) :
    κ → Option ν :=
  calls.foldl (fun earlier hash k => (taken settings hash k).or (earlier k)) (fun _ => none)

section Effects
variable {s : Setting κ ν ε σ} {settings : List (Setting κ ν ε σ)}
  {hash hash' earlier later : κ → Option ν}

theorem effect_congr (h : hash s.key = hash' s.key) : s.effect hash = s.effect hash' := by
  funext config
  rw [effect, effect, h]

theorem effects_congr (h : ∀ s ∈ settings, hash s.key = hash' s.key) (config : σ) :
    effects hash settings config = effects hash' settings config := by
  induction settings generalizing config with
  | nil => rfl
  | cons s settings ih =>
    have hhead := effect_congr (h s List.mem_cons_self)
    simp only [effects, List.foldl_cons, hhead]
    exact ih (fun t ht => h t (List.mem_cons_of_mem _ ht)) _

theorem effects_none (h : ∀ s ∈ settings, hash s.key = none) (config : σ) :
    effects hash settings config = config := by
  induction settings generalizing config with
  | nil => rfl
  | cons s settings ih =>
    have hhead : s.effect hash config = config := by
      rw [effect, h s List.mem_cons_self]
    simp only [effects, List.foldl_cons, hhead]
    exact ih (fun t ht => h t (List.mem_cons_of_mem _ ht)) _

theorem accepts_or (hl : s.accepts later = true) (he : s.accepts earlier = true) :
    s.accepts (fun k => (later k).or (earlier k)) = true := by
  rw [accepts] at hl he ⊢
  cases hvalue : later s.key with
  | none => simpa using he
  | some value =>
    rw [hvalue] at hl
    exact hl

theorem effect_or (hi : s.Overwrites) (hl : s.accepts later = true) (config : σ) :
    s.effect later (s.effect earlier config) =
      s.effect (fun k => (later k).or (earlier k)) config := by
  simp only [effect]
  cases hlater : later s.key with
  | none => rfl
  | some value =>
    rw [accepts, hlater] at hl
    cases hwrite : s.write value with
    | error error =>
      dsimp only at hl
      rw [hwrite] at hl
      cases hl
    | ok store =>
      simp only [Option.some_or, hwrite]
      cases earlier s.key with
      | none => rfl
      | some value' =>
        cases hwrite' : s.write value' with
        | error error => simp only [hwrite']
        | ok store' =>
          simp only [hwrite']
          exact hi value' value store' store hwrite' hwrite config

theorem effect_effects (hs : ∀ t ∈ settings, s.Commutes t) (config : σ) :
    s.effect later (effects earlier settings config) =
      effects earlier settings (s.effect later config) := by
  induction settings generalizing config with
  | nil => rfl
  | cons t settings ih =>
    have hhead : s.effect later (t.effect earlier config) =
        t.effect earlier (s.effect later config) := by
      simp only [effect]
      cases later s.key with
      | none => rfl
      | some value =>
        cases hwrite : s.write value with
        | error error => simp only [hwrite]
        | ok store =>
          simp only [hwrite]
          cases earlier t.key with
          | none => rfl
          | some value' =>
            cases hwrite' : t.write value' with
            | error error => simp only [hwrite']
            | ok store' =>
              simp only [hwrite']
              exact hs t List.mem_cons_self value value' store store' hwrite hwrite' config
    simp only [effects, List.foldl_cons] at ih ⊢
    rw [ih (fun u hu => hs u (List.mem_cons_of_mem _ hu)), hhead]

/-- Values on top of earlier ones do what the values of both do together. -/
theorem effects_or (hi : Independent settings)
    (hl : ∀ s ∈ settings, s.accepts later = true) (config : σ) :
    effects later settings (effects earlier settings config) =
      effects (fun k => (later k).or (earlier k)) settings config := by
  induction settings generalizing config with
  | nil => rfl
  | cons s settings ih =>
    have hrest : Independent settings :=
      ⟨hi.keys.of_cons, fun t ht => hi.overwrites t (List.mem_cons_of_mem _ ht),
        hi.commutes.of_cons⟩
    have hmeet : s.effect later (effects earlier settings (s.effect earlier config)) =
        effects earlier settings (s.effect later (s.effect earlier config)) :=
      effect_effects (fun t ht => List.rel_of_pairwise_cons hi.commutes ht) _
    have hhead : s.effect later (s.effect earlier config) =
        s.effect (fun k => (later k).or (earlier k)) config :=
      effect_or (hi.overwrites s List.mem_cons_self) (hl s List.mem_cons_self) config
    simp only [effects, List.foldl_cons] at hmeet ih ⊢
    rw [hmeet, hhead, ih hrest (fun t ht => hl t (List.mem_cons_of_mem _ ht))]

end Effects

section Merged
variable [DecidableEq κ] {settings : List (Setting κ ν ε σ)}

theorem taken_accepts (hash : κ → Option ν) {s : Setting κ ν ε σ} (hs : s ∈ settings)
    (hkeys : (settings.map key).Nodup) : s.accepts (taken settings hash) = true := by
  rw [accepts, taken]
  split_ifs with hmem
  · -- the setting itself is the stored one with this key
    rcases List.mem_map.mp hmem with ⟨t, ht, hkey⟩
    have hsettings : t ∈ settings := (List.takeWhile_prefix _).subset ht
    obtain rfl : t = s := List.inj_on_of_nodup_map hkeys hsettings hs hkey
    have haccepts : t.accepts hash = true :=
      List.mem_takeWhile_imp (p := fun u : Setting κ ν ε σ => u.accepts hash) ht
    exact haccepts
  · rfl

theorem effects_taken (hash : κ → Option ν) (hkeys : (settings.map key).Nodup) (config : σ) :
    effects (taken settings hash) settings config =
      effects hash (stored hash settings) config := by
  have hsplit : stored hash settings ++ settings.dropWhile (fun s => s.accepts hash) = settings :=
    List.takeWhile_append_dropWhile
  have hapart : ∀ s ∈ settings.dropWhile (fun s => s.accepts hash),
      taken settings hash s.key = none := by
    intro s hs
    rw [← hsplit, List.map_append] at hkeys
    exact if_neg (fun hmem =>
      (List.disjoint_of_nodup_append hkeys) hmem (List.mem_map_of_mem hs))
  have hsame : ∀ s ∈ stored hash settings, taken settings hash s.key = hash s.key :=
    fun s hs => if_pos (List.mem_map_of_mem hs)
  have hboth : effects (taken settings hash) settings config =
      effects (taken settings hash) (settings.dropWhile (fun s => s.accepts hash))
        (effects (taken settings hash) (stored hash settings) config) := by
    rw [effects, effects, effects, ← List.foldl_append, hsplit]
  rw [hboth, effects_none hapart, effects_congr hsame]

theorem merged_append (settings : List (Setting κ ν ε σ)) (calls : List (κ → Option ν))
    (hash : κ → Option ν) (k : κ) :
    merged settings (calls ++ [hash]) k = (taken settings hash k).or (merged settings calls k) := by
  simp [merged]

/-- Any calls, failed ones among them, come to one call that succeeds. -/
theorem readAll_merged (hi : Independent settings) (calls : List (κ → Option ν)) (config : σ) :
    (readAll (merged settings calls) settings).outcome config = .ok () ∧
      (readAll (merged settings calls) settings).after config =
        calls.foldl (fun config hash => (readAll hash settings).after config) config := by
  have hcalls : (∀ s ∈ settings, s.accepts (merged settings calls) = true) ∧
      effects (merged settings calls) settings config =
        calls.foldl (fun config hash => (readAll hash settings).after config) config := by
    induction calls using List.reverseRecOn with
    | nil => exact ⟨fun s _ => rfl, effects_none (fun s _ => rfl) config⟩
    | append_singleton calls hash ih =>
      rcases ih with ⟨haccepts, heffects⟩
      have hmerged : merged settings (calls ++ [hash]) =
          fun k => (taken settings hash k).or (merged settings calls k) := by
        funext k
        exact merged_append settings calls hash k
      have htaken : ∀ s ∈ settings, s.accepts (taken settings hash) = true :=
        fun s hs => taken_accepts hash hs hi.keys
      rw [hmerged, List.foldl_append, ← heffects]
      refine ⟨fun s hs => accepts_or (htaken s hs) (haccepts s hs), ?_⟩
      rw [← effects_or hi htaken, effects_taken hash hi.keys]
      exact (after_readAll _).symm
  refine ⟨outcome_readAll hcalls.1 config, ?_⟩
  have hall : stored (merged settings calls) settings = settings :=
    List.takeWhile_eq_self_iff.mpr hcalls.1
  rw [after_readAll, hall, hcalls.2]

theorem merged_eq_some {calls : List (κ → Option ν)} {k : κ} {value : ν} :
    merged settings calls k = some value ↔ ∃ before hash after, calls = before ++ hash :: after ∧
      taken settings hash k = some value ∧ ∀ later ∈ after, taken settings later k = none := by
  induction calls using List.reverseRecOn with
  | nil => simp [merged]
  | append_singleton calls last ih =>
    rw [merged_append]
    constructor
    · intro h
      cases htaken : taken settings last k with
      | some found =>
        rw [htaken] at h
        cases h
        exact ⟨calls, last, [], rfl, htaken, by simp⟩
      | none =>
        rw [htaken] at h
        rcases ih.mp h with ⟨before, hash, after, rfl, hvalue, hlater⟩
        refine ⟨before, hash, after ++ [last], by simp, hvalue, fun later hmem => ?_⟩
        rcases List.mem_append.mp hmem with hmem | hmem
        · exact hlater later hmem
        · rw [List.mem_singleton.mp hmem]
          exact htaken
    · rintro ⟨before, hash, after, hcalls, hvalue, hlater⟩
      rcases List.eq_nil_or_concat after with rfl | ⟨after, final, rfl⟩
      · obtain ⟨rfl, hlast⟩ := List.append_inj' hcalls rfl
        cases hlast
        rw [hvalue]
        rfl
      · rw [List.concat_eq_append] at hcalls hlater
        rw [← List.cons_append, ← List.append_assoc] at hcalls
        obtain ⟨rfl, hlast⟩ := List.append_inj' hcalls rfl
        cases hlast
        rw [hlater last (by simp)]
        exact ih.mpr ⟨before, hash, after, rfl, hvalue, fun later hmem =>
          hlater later (List.mem_append_left _ hmem)⟩

end Merged

end Setting
end HyperRuby.Library
