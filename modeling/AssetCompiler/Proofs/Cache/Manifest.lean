import AssetCompiler.Cache.Manifest
import AssetCompiler.Proofs.Json.RoundTrip
import Mathlib.Tactic.NormNum

/-! # Manifests are read back

A manifest written from rows whose times fit in 64 bits is read as the same rows in the same
order.
-/
namespace AssetCompiler.Manifest

open Json (form forms fieldForms isPlain)

theorem stamp?_form (s : Stamp) : stamp? (form (ofStamp s)) = some s := rfl

theorem stamps?_forms (ss : List Stamp) :
    (forms (ss.map ofStamp)).mapM stamp? = some ss := by
  induction ss with
  | nil => rfl
  | cons s ss ih =>
    rw [List.map_cons, forms, List.mapM_cons, stamp?_form, ih]
    rfl

def Fits (r : Row) : Prop := r.modified < 2 ^ 64

theorem unsigned?_integer {bits n : Nat} (h : n < 2 ^ bits) :
    unsigned? bits (.scalar (some (.integer n))) = some n := by
  have hn : (n : Int) < 2 ^ bits := by exact_mod_cast h
  simp [unsigned?, hn]

def formFields (r : Row) : List (String × Json.Form) := [
  ("source", .scalar (some (.string r.source.text))),
  ("target", .scalar (some (.string r.target.text))),
  ("language", form ((r.language.map Json.string).getD .null)),
  ("last_modified", .scalar (some (.integer r.modified))),
  ("checksum", .scalar (some (.string r.checksum))),
  ("output_checksum", .scalar (some (.string r.outputChecksum))),
  ("dependencies", .array (forms (r.dependencies.map ofStamp)))]

theorem recordFields?_row (r : Row) : recordFields? rowFields (form (ofRow r)) = some (formFields r) := by
  simp [recordFields?, ofRow, form, fieldForms, rowFields, formFields]

theorem language?_form (l : Option String) :
    language? (some (form ((l.map Json.string).getD .null))) = some l := by
  cases l <;> rfl

theorem row?_of_fields {r : Row} {v : Json.Form} {fields : List (String × Json.Form)}
    (hfields : recordFields? rowFields v = some fields)
    (hsource : Fields.get? fields "source" = some (.scalar (some (.string r.source.text))))
    (htarget : Fields.get? fields "target" = some (.scalar (some (.string r.target.text))))
    (hlanguage : language? (Fields.get? fields "language") = some r.language)
    (hmodified : (Fields.get? fields "last_modified").bind (unsigned? 64) = some r.modified)
    (hchecksum : Fields.get? fields "checksum" = some (.scalar (some (.string r.checksum))))
    (houtput : Fields.get? fields "output_checksum" =
      some (.scalar (some (.string r.outputChecksum))))
    (hdependencies : Fields.get? fields "dependencies" =
      some (.array (forms (r.dependencies.map ofStamp)))) : row? v = some r := by
  simp [row?, hfields, hsource, htarget, hlanguage, hmodified, hchecksum, houtput, hdependencies,
    string?, list?, stamps?_forms]

theorem modified_formFields {r : Row} (h : Fits r) :
    (Fields.get? (formFields r) "last_modified").bind (unsigned? 64) = some r.modified := by
  have hget : Fields.get? (formFields r) "last_modified" =
      some (.scalar (some (.integer r.modified))) := by
    simp [formFields, Fields.get?_cons]
  rw [hget, Option.bind_some, unsigned?_integer h]

theorem row?_form {r : Row} (h : Fits r) : row? (form (ofRow r)) = some r := by
  refine row?_of_fields (recordFields?_row r) ?_ ?_ ?_ (modified_formFields h) ?_ ?_ ?_
  · simp [formFields, Fields.get?_cons]
  · simp [formFields, Fields.get?_cons]
  · rw [← language?_form]
    simp [formFields, Fields.get?_cons]
  · simp [formFields, Fields.get?_cons]
  · simp [formFields, Fields.get?_cons]
  · simp [formFields, Fields.get?_cons]

theorem rows?_forms {rows : List Row} (h : ∀ r ∈ rows, Fits r) :
    (forms (rows.map ofRow)).mapM row? = some rows := by
  induction rows with
  | nil => rfl
  | cons r rows ih =>
    have hr := row?_form (h r (by simp))
    have hrows := ih (fun q hq => h q (List.mem_cons_of_mem _ hq))
    rw [List.map_cons, forms, List.mapM_cons, hr, hrows]
    rfl

theorem isPlain_ofRow {r : Row} (h : Fits r) : isPlain (ofRow r) = true := by
  have hstamps : Json.arePlain (r.dependencies.map ofStamp) = true :=
    Json.arePlain_map fun _ _ => rfl
  have hmodified : r.modified < 18446744073709551616 := h
  have hlanguage : isPlain ((r.language.map Json.string).getD .null) = true := by
    cases r.language <;> rfl
  simp [ofRow, isPlain, Json.haveOnlyPlain, hstamps, hmodified, hlanguage]

/-- Reading undoes writing. -/
theorem parse?_render {rows : List Row} (h : ∀ r ∈ rows, Fits r) :
    parse? (render rows) = some (version, rows) := by
  have hplain : Json.arePlain (rows.map ofRow) = true :=
    Json.arePlain_map fun r hr => isPlain_ofRow (h r hr)
  have hread := Json.readForm?_indented
    (.object [("version", .integer version), ("entries", .array (rows.map ofRow))])
    (by simp [isPlain, Json.haveOnlyPlain, hplain, version])
  have hfields : recordFields? ["version", "entries"]
      (form (.object [("version", .integer version), ("entries", .array (rows.map ofRow))])) = some [
        ("version", .scalar (some (.integer version))),
        ("entries", .array (forms (rows.map ofRow)))] := rfl
  have hversion : unsigned? 32 (.scalar (some (.integer version))) = some version :=
    unsigned?_integer (by decide)
  have hrows := rows?_forms h
  unfold parse? render
  rw [hread]
  simp [hfields, Fields.get?_cons, list?, hversion, hrows]

end AssetCompiler.Manifest
