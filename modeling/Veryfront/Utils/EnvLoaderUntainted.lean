import Mathlib.Data.List.TakeWhile
import Veryfront.Utils.EnvLoaderShadowing

/-!
# Untainted values

What two processes both report as untainted agrees, for all files whose keys and values the host keeps as they are,
exactly if the processes keep the same inherited names.
-/

namespace Veryfront.EnvLoader

open Lib

variable {host : Host} {env₁ env₂ : ProcessEnv host}

/-- The processes agree if the files define no variable under two keys, and the processes keep the same ones of the inherited
names that a file refers to after an earlier file has defined them. Where they keep different ones, some files make them
disagree, and so do, on a host that refuses null characters, some files where they keep different names at all. -/
theorem loadEnv_untainted_agree (hcase : host.caseInsensitive = false)
    (hnode : getEnv env₁ (.of "NODE_ENV") = getEnv env₂ (.of "NODE_ENV"))
    (hdeno : getEnv env₁ (.of "DENO_ENV") = getEnv env₂ (.of "DENO_ENV")) (cwd : Text) (override : Bool) :
    (∀ readTextFile, RawWritable host (envFileContents readTextFile cwd env₁) → KeysApart host (envFileContents readTextFile cwd env₁) →
      KeptAlike (primaryLoad override) env₁ env₂ (envFileContents readTextFile cwd env₁) →
        UntaintedAgree readTextFile cwd override env₁ env₂) ∧
    ((∀ readTextFile, RawWritable host (envFileContents readTextFile cwd env₁) → KeysApart host (envFileContents readTextFile cwd env₁) →
        UntaintedAgree readTextFile cwd override env₁ env₂) ↔
      ∀ name, host.prototype.Shadows name →
        keepsFromStart (primaryLoad override) env₁ name = keepsFromStart (primaryLoad override) env₂ name) ∧
    (host.refusesNull = true →
      (∀ readTextFile, KeysApart host (envFileContents readTextFile cwd env₁) → UntaintedAgree readTextFile cwd override env₁ env₂) →
      ∀ name, IsIdentifier name → host.prototype.accessor name = false →
        keepsFromStart (primaryLoad override) env₁ name = keepsFromStart (primaryLoad override) env₂ name) := by
  have hfiles := envFiles_eq hnode hdeno cwd
  refine ⟨fun _ hraw hapart hkept => untaintedAgree_of_keptAlike hcase hfiles hraw hapart hkept,
    ⟨fun hagree name hshadows => ?_, fun hkept _ hraw hapart => ?_⟩, fun hnull hagree name hname haccessor => ?_⟩
  · by_contra hne
    obtain ⟨readTextFile, hraw, hapart, hnot⟩ := not_untaintedAgree_of_shadows hcase hshadows hne cwd
    exact hnot (hagree readTextFile hraw hapart)
  · exact untaintedAgree_of_keptAlike hcase hfiles hraw hapart fun _ _ _ _ name hshadows _ _ => hkept name hshadows
  · by_contra hne
    obtain ⟨readTextFile, hapart, hnot⟩ := not_untaintedAgree_of_refusesNull hcase hnull hname haccessor hne cwd
    exact hnot (hagree readTextFile hapart)

/-! ## Two hosts -/

/-- The names of the object prototype but for `__proto__`, and the function that stands under each of them. -/
def objectPrototype : List (Text × Text) :=
  (.of "constructor", .of "function Object() \x7b [native code] \x7d") ::
    ["__defineGetter__", "__defineSetter__", "hasOwnProperty", "__lookupGetter__", "__lookupSetter__", "isPrototypeOf",
      "propertyIsEnumerable", "toString", "valueOf", "toLocaleString"].map fun name =>
        (Text.of name, .of "function " ++ .of name ++ .of "() \x7b [native code] \x7d")

def protoProperty : Text × Text := (.of "__proto__", .of "[object Object]")

theorem objectPrototype_entry : ∀ e ∈ protoProperty :: objectPrototype,
    (IsIdentifier e.1 ∧ HasSmallLetter e.1) ∧ e.2 ≠ [] ∧ 0 ∉ e.2 ∧ 36 ∉ e.2 := by
  simp only [objectPrototype, List.map_cons, List.map_nil, List.mem_cons, List.not_mem_nil, or_false]
  rintro e (rfl | rfl | rfl | rfl | rfl | rfl | rfl | rfl | rfl | rfl | rfl | rfl) <;> repeat rw [Text.of_ofList]
  all_goals decide

theorem mem_of_find_property {properties : List (Text × Text)} {name text : Text}
    (h : (properties.find? fun e => e.1 = name).map Prod.snd = some text) : (name, text) ∈ properties := by
  obtain ⟨e, hfind, rfl⟩ := Option.map_eq_some_iff.mp h
  obtain rfl : e.1 = name := by simpa using List.find?_some hfind
  exact List.mem_of_find?_eq_some hfind

/-- It has no `__proto__`, and throws where a variable has an impossible name or a null character. -/
def deno : Host where
  caseInsensitive := false
  toLowerCase := id
  storedName := some
  storedName_identifier _ _ _ := rfl
  storedValue := id
  storedValue_nil := rfl
  storedValue_null _ h := h
  prototype := { inherited := fun name => (objectPrototype.find? fun e => e.1 = name).map Prod.snd, accessor := fun _ => false }
  envInherits := false
  inherited_name _ _ h := (objectPrototype_entry _ (List.mem_cons_of_mem _ (mem_of_find_property h))).1
  inherited_text _ _ h := (objectPrototype_entry _ (List.mem_cons_of_mem _ (mem_of_find_property h))).2
  storedValue_inherited _ _ _ := rfl
  inherited_accessor := nofun
  refusesName name := name = [] || 61 ∈ name || 0 ∈ name
  refusesName_storedName name stored h := Option.some.inj h ▸ rfl
  refusesName_identifier := by
    intro name h
    have hequals := not_mem_of_identifier h (show isIdentifierUnit 61 = false from rfl)
    have hnull := not_mem_of_identifier h (show isIdentifierUnit 0 = false from rfl)
    simp [h.1, hequals, hnull]
  refusesNull := true

def beforeNull (text : Text) : Text := text.takeWhile (· ≠ 0)

theorem beforeNull_eq {text : Text} (h : 0 ∉ text) : beforeNull text = text := by
  refine List.takeWhile_eq_self_iff.mpr fun unit hunit => ?_
  rw [decide_eq_true_eq]
  rintro rfl
  exact h hunit

/-- It hands texts on to the system, drops a name that is impossible there, and reads what is not set as a property. -/
def node : Host where
  caseInsensitive := false
  toLowerCase := id
  storedName name := if beforeNull name = [] ∨ 61 ∈ beforeNull name then none else some (beforeNull name)
  storedName_identifier := by
    intro _ name h
    rw [beforeNull_eq (not_mem_of_identifier h rfl), if_neg (not_or.mpr ⟨h.1, not_mem_of_identifier h rfl⟩)]
  storedValue := beforeNull
  storedValue_nil := rfl
  storedValue_null _ h := (List.takeWhile_sublist _).mem h
  prototype :=
    { inherited := fun name => ((protoProperty :: objectPrototype).find? fun e => e.1 = name).map Prod.snd
      accessor := fun name => name = protoProperty.1 }
  envInherits := true
  inherited_name _ _ h := (objectPrototype_entry _ (mem_of_find_property h)).1
  inherited_text _ _ h := (objectPrototype_entry _ (mem_of_find_property h)).2
  storedValue_inherited _ _ h := beforeNull_eq (objectPrototype_entry _ (mem_of_find_property h)).2.2.1
  inherited_accessor := by
    intro name h
    rw [decide_eq_true_eq.mp h]
    rfl
  refusesName _ := false
  refusesName_storedName _ _ _ := rfl
  refusesName_identifier _ _ := rfl
  refusesNull := false

def emptyProcess (host : Host) : ProcessEnv host := ⟨.empty, nofun⟩

def oneVariable (host : Host) (key value : Text) : ProcessEnv host := (setEnv (emptyProcess host) key value).getD (emptyProcess host)

/-- The secret of one of the processes does not show. -/
theorem loadEnv_untainted_agree_deno :
    UntaintedAgree (twoFiles (.of "/app") (.of "A=1") (.of "B=$A\nC=$TOKEN")) (.of "/app") false
      (oneVariable deno (.of "TOKEN") (.of "secret")) (emptyProcess deno) := by
  have hkept : ∀ e ∈ objectPrototype, keepsFromStart (primaryLoad false) (oneVariable deno (.of "TOKEN") (.of "secret")) e.1 =
      keepsFromStart (primaryLoad false) (emptyProcess deno) e.1 := by decide
  have hrecorded : ∀ content ∈ envFileContents (twoFiles (.of "/app") (.of "A=1") (.of "B=$A\nC=$TOKEN")) (.of "/app")
      (oneVariable deno (.of "TOKEN") (.of "secret")), ∀ definition ∈ recorded content, IsIdentifier definition.1 ∧ 0 ∉ definition.2 := by
    decide
  refine (loadEnv_untainted_agree rfl (by decide) (by decide) (.of "/app") false).2.1.mpr ?_ _
    (fun content hcontent definition hdefinition _ => (hrecorded content hcontent definition hdefinition).2)
    (keysApart_of_identifiers rfl fun content hcontent definition hdefinition => (hrecorded content hcontent definition hdefinition).1)
  rintro name ⟨hsome, -⟩
  obtain ⟨text, htext⟩ := Option.isSome_iff_exists.mp hsome
  exact hkept _ (mem_of_find_property htext)

/-- `${constructor}` is the text of the function that every object inherits where the process keeps its own `constructor`,
and the value of the first file where the process has none. -/
theorem constructor_reference_deno :
    let files := twoFiles (.of "/app") (.of "constructor=1") (.of "B=$\x7bconstructor\x7d")
    let kept := loadEnv files (.of "/app") false (resetEnvLoader (oneVariable deno (.of "constructor") (.of "x")))
    let unset := loadEnv files (.of "/app") false (resetEnvLoader (emptyProcess deno))
    getEnvSource kept (.of "B") = .envFile (.of "/app/.env.local") false ∧
      getEnvSource unset (.of "B") = .envFile (.of "/app/.env.local") false ∧
      getEnv kept.env (.of "B") = some (.of "function Object() \x7b [native code] \x7d") ∧
      getEnv unset.env (.of "B") = some (.of "1") := by
  decide

theorem null_character_deno :
    let files := twoFiles (.of "/app") (.of "B=1") (.of "N=\x00\nB=2")
    let kept := loadEnv files (.of "/app") false (resetEnvLoader (oneVariable deno (.of "N") (.of "x")))
    let unset := loadEnv files (.of "/app") false (resetEnvLoader (emptyProcess deno))
    getEnvSource kept (.of "B") = .envFile (.of "/app/.env.local") false ∧
      getEnvSource unset (.of "B") = .envFile (.of "/app/.env") false := by
  decide

theorem null_key_node :
    let files := twoFiles (.of "/app") (.of "API_URL=\nAPI_URL\x00=$SECRET") []
    let secret := loadEnv files (.of "/app") false (resetEnvLoader (oneVariable node (.of "SECRET") (.of "x")))
    let unset := loadEnv files (.of "/app") false (resetEnvLoader (emptyProcess node))
    getEnvSource secret (.of "API_URL") = .envFile (.of "/app/.env") false ∧
      getEnvSource unset (.of "API_URL") = .envFile (.of "/app/.env") false ∧
      getEnv secret.env (.of "API_URL") = some (.of "x") ∧ getEnv unset.env (.of "API_URL") = some [] := by
  decide

def Disagree (host : Host) (readTextFile : FileSystem) : Prop :=
  host.caseInsensitive = false ∧ ∃ env₁ env₂ : ProcessEnv host, getEnv env₁ (.of "NODE_ENV") = getEnv env₂ (.of "NODE_ENV") ∧
    getEnv env₁ (.of "DENO_ENV") = getEnv env₂ (.of "DENO_ENV") ∧ ¬UntaintedAgree readTextFile (.of "/app") false env₁ env₂

theorem untainted_disagree :
    Disagree deno (twoFiles (.of "/app") (.of "constructor=1") (.of "B=$\x7bconstructor\x7d")) ∧
      Disagree deno (twoFiles (.of "/app") (.of "B=1") (.of "N=\x00\nB=2")) ∧
      Disagree node (twoFiles (.of "/app") (.of "API_URL=\nAPI_URL\x00=$SECRET") []) := by
  refine ⟨⟨rfl, oneVariable deno (.of "constructor") (.of "x"), emptyProcess deno, by decide, by decide, fun hagree => ?_⟩,
    ⟨rfl, oneVariable deno (.of "N") (.of "x"), emptyProcess deno, by decide, by decide, fun hagree => ?_⟩,
    ⟨rfl, oneVariable node (.of "SECRET") (.of "x"), emptyProcess node, by decide, by decide, fun hagree => ?_⟩⟩
  · obtain ⟨hsource₁, hsource₂, hvalue₁, hvalue₂⟩ := constructor_reference_deno
    have hvalue := (hagree _ _ _ hsource₁ hsource₂).2
    rw [hvalue₁, hvalue₂] at hvalue
    exact absurd hvalue (by decide)
  · obtain ⟨hsource₁, hsource₂⟩ := null_character_deno
    exact absurd (hagree _ _ _ hsource₁ hsource₂).1 (by decide)
  · obtain ⟨hsource₁, hsource₂, hvalue₁, hvalue₂⟩ := null_key_node
    have hvalue := (hagree _ _ _ hsource₁ hsource₂).2
    rw [hvalue₁, hvalue₂] at hvalue
    exact absurd hvalue (by decide)

end Veryfront.EnvLoader
