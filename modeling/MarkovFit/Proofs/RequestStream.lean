import MarkovFit.Oracle.Wrapper
import MarkovFit.Proofs.Maps
import MarkovFit.Proofs.ResultRoundTrip
import MarkovFit.Proofs.SettingsCheck
import MarkovFit.Proofs.TextPieces
import Mathlib.Data.Bool.AllAny
import Std.Data.String.ToNat

/-!
# The stream of requests

The requests of a call are written with line feeds, colons, commas and equality signs between their
parts, and nothing is escaped. The parts are numbers of requests, names of parameters that pass the
check of the settings and short texts of decimals, none of which has such a separator in the wrong
place. Therefore the requests can be read off the stream: the numbers and the names exactly, and the
values up to their trailing zeros.
-/

namespace MarkovFit.Proofs

open Oracle Text

/-! ### Names and values -/

/-- The text has none of the characters that end a name, a value or a line. -/
def Bare (text : String) : Prop := ∀ c ∈ text.toList, c ∉ [',', '=', '\n', '\r']

theorem Bare.not_mem {text : String} (h : Bare text) {c : Char} (hc : c ∈ [',', '=', '\n', '\r']) :
    c ∉ text.toList := fun hmem => h c hmem hc

theorem bare_of_isIdentifier {name : String} (h : Settings.isIdentifier name = true) :
    Bare name := by
  intro c hc hseparator
  have hnot : ∀ d ∈ [',', '=', '\n', '\r'], Expr.isIdentRest d = false :=
    List.all_iff_forall_prop.1 (by decide)
  have hword := (isIdentifier_iff.1 h).isIdentRest c hc
  exact absurd hword (by rw [hnot c hseparator]; exact Bool.false_ne_true)

theorem bare_shortText (a : Decimal) : Bare a.shortText := by
  intro c hc hseparator
  have hnot : ∀ d ∈ [',', '=', '\n', '\r'], isPlain d = false :=
    List.all_iff_forall_prop.1 (by decide)
  exact absurd (isPlain_of_mem_text hc) (by rw [hnot c hseparator]; exact Bool.false_ne_true)

/-- Decimals with the same short text have the same value. -/
theorem sameValue_of_shortText_eq {a b : Decimal} (h : a.shortText = b.shortText) :
    a.SameValue b := by
  have hread := read_shortText a
  rw [h, read_shortText] at hread
  rw [sameValue_iff_toRat_eq, ← toRat_normalize a, ← toRat_normalize b, Except.ok.inj hread]

/-! ### Constants -/

/-- The name and the value of the constant are free of separators. -/
structure BareConstant (c : Constant) : Prop where
  name : Bare c.name
  value : Bare c.value

theorem toList_text (c : Constant) : c.text.toList = c.name.toList ++ '=' :: c.value.toList := by
  rw [Constant.text, String.toList_append, String.toList_append, List.append_assoc]
  rfl

theorem BareConstant.not_mem_text {c : Constant} (h : BareConstant c) {d : Char}
    (hd : d ∈ [',', '\n', '\r']) : d ∉ c.text.toList := by
  have hseparator : ∀ d ∈ [',', '\n', '\r'], d ∈ [',', '=', '\n', '\r'] ∧ d ≠ '=' :=
    List.all_iff_forall_prop.1 (by decide)
  obtain ⟨hbare, hne⟩ := hseparator d hd
  rw [toList_text, List.mem_append, List.mem_cons, not_or, not_or]
  exact ⟨h.name.not_mem hbare, hne, h.value.not_mem hbare⟩

/-- A name ends at the first equality sign. -/
theorem eq_of_text_eq {c c' : Constant} (h : BareConstant c) (h' : BareConstant c')
    (htext : c.text = c'.text) : c = c' := by
  have hcut : ∀ {c : Constant}, BareConstant c →
      cutAt? (· == '=') c.text.toList = some (c.name.toList, c.value.toList) := fun h =>
    cutAt?_eq_some_iff.2 ⟨h.name.not_mem (by decide), toList_text _⟩
  have hparts := hcut h
  rw [htext, hcut h', Option.some_inj, Prod.mk.injEq, String.toList_inj,
    String.toList_inj] at hparts
  cases c
  cases c'
  exact congrArg₂ Constant.mk hparts.1.symm hparts.2.symm

theorem toList_listText (cs : List Constant) :
    (Constant.listText cs).toList = [','].intercalate (cs.map fun c => c.text.toList) := by
  rw [Constant.listText, String.toList_intercalate, List.map_map]
  rfl

/-- Lists whose elements have the same images are the same, where images tell elements apart. -/
theorem eq_of_map_eq {α β : Type} {P : α → Prop} {f : α → β}
    (hf : ∀ {x y}, P x → P y → f x = f y → x = y) {xs ys : List α} (hxs : ∀ x ∈ xs, P x)
    (hys : ∀ y ∈ ys, P y) (h : xs.map f = ys.map f) : xs = ys := by
  induction xs generalizing ys with
  | nil => exact (List.map_eq_nil_iff.1 h.symm).symm
  | cons x xs ih =>
    obtain ⟨y, ys', rfl, hy, hrest⟩ := List.map_eq_cons_iff.1 h.symm
    rw [List.forall_mem_cons] at hxs hys
    rw [hf hxs.1 hys.1 hy.symm, ih hxs.2 hys.2 hrest.symm]

/-- A constant ends at the next comma. -/
theorem eq_of_listText_eq {cs cs' : List Constant} (h : ∀ c ∈ cs, BareConstant c)
    (h' : ∀ c ∈ cs', BareConstant c) (htext : Constant.listText cs = Constant.listText cs') :
    cs = cs' := by
  have hparts : ∀ {cs : List Constant}, (∀ c ∈ cs, BareConstant c) →
      ∀ part ∈ cs.map fun c => c.text.toList, part ≠ [] ∧ ',' ∉ part := by
    intro cs h
    rw [List.forall_mem_map]
    refine fun c hc => ⟨?_, (h c hc).not_mem_text (by decide)⟩
    rw [toList_text]
    exact List.append_ne_nil_of_right_ne_nil _ (List.cons_ne_nil _ _)
  rw [← String.toList_inj, toList_listText, toList_listText,
    intercalate_inj (hparts h) (hparts h')] at htext
  exact eq_of_map_eq (fun hc hc' heq => eq_of_text_eq hc hc' (String.toList_inj.1 heq)) h h' htext

/-! ### Requests -/

/-- A number and constants without separators. -/
def BareRequest (request : ℕ × List Constant) : Prop := ∀ c ∈ request.2, BareConstant c

theorem toList_requestLine (id : ℕ) (cs : List Constant) : (requestLine id cs).toList =
    (toString id).toList ++ ':' :: (Constant.listText cs).toList := by
  rw [requestLine, String.toList_append, String.toList_append, List.append_assoc]
  rfl

theorem not_mem_toString {c : Char} (hc : isDigit c = false) (id : ℕ) :
    c ∉ (toString id).toList := by
  intro hmem
  rw [isDigit_of_mem_toString hmem] at hc
  cases hc

/-- The number of a request ends at the first colon. -/
theorem eq_of_requestLine_eq {request request' : ℕ × List Constant} (h : BareRequest request)
    (h' : BareRequest request')
    (hline : requestLine request.1 request.2 = requestLine request'.1 request'.2) :
    request = request' := by
  have hcut : ∀ id cs, cutAt? (· == ':') (requestLine id cs).toList =
      some ((toString id).toList, (Constant.listText cs).toList) := fun id cs =>
    cutAt?_eq_some_iff.2 ⟨not_mem_toString rfl id, toList_requestLine id cs⟩
  have hparts := hcut request.1 request.2
  rw [hline, hcut, Option.some_inj, Prod.mk.injEq, String.toList_inj, String.toList_inj] at hparts
  exact Prod.ext (Nat.repr_inj.1 hparts.1.symm) (eq_of_listText_eq h h' hparts.2.symm)

/-- A request stays on its line. -/
theorem unbroken_requestLine {request : ℕ × List Constant} (h : BareRequest request) :
    Unbroken (requestLine request.1 request.2) := by
  have hend : ∀ d ∈ ['\n', '\r'], d ∉ (requestLine request.1 request.2).toList := by
    intro d hd hmem
    have hconstant : d ∈ [',', '\n', '\r'] := List.mem_cons_of_mem _ hd
    have hother : ∀ d ∈ ['\n', '\r'], isDigit d = false ∧ d ≠ ':' ∧ d ≠ ',' :=
      List.all_iff_forall_prop.1 (by decide)
    obtain ⟨hdigit, hcolon, hcomma⟩ := hother d hd
    rw [toList_requestLine, List.mem_append, List.mem_cons, toList_listText] at hmem
    rcases hmem with hmem | hmem | hmem
    · exact not_mem_toString hdigit _ hmem
    · exact hcolon hmem
    · obtain hmem | ⟨text, htext, hmem⟩ := mem_intercalate_cases hmem
      · exact hcomma hmem
      · obtain ⟨c, hc, rfl⟩ := List.mem_map.1 htext
        exact (h c hc).not_mem_text hconstant hmem
  intro c hc
  constructor
  · rintro rfl
    exact hend _ (by decide) hc
  · rintro rfl
    exact hend _ (by decide) hc

/-- The line that ends the requests has no colon. -/
theorem requestLine_ne_endLine (id : ℕ) (cs : List Constant) : requestLine id cs ≠ endLine := by
  intro h
  have hcolon : ':' ∈ (requestLine id cs).toList := by simp [toList_requestLine]
  rw [h] at hcolon
  exact absurd hcolon (by decide)

/-! ### The stream -/

/-- A line for each request. -/
def requestLines (requests : Requests) : List String :=
  requests.toList.map fun request => requestLine request.1 request.2

theorem payload_eq (requests : Requests) :
    payload requests = String.join ((requestLines requests ++ [endLine]).map (· ++ "\n")) := by
  rw [← String.toList_inj]
  simp [payload, requestLines, String.toList_append, Function.comp_def]

/-- The stream has the lines of the requests and the line that ends them, and no other lines. -/
theorem lines_payload {requests : Requests} (h : ∀ request ∈ requests.toList, BareRequest request) :
    lines (payload requests) = requestLines requests ++ [endLine] := by
  rw [payload_eq]
  apply lines_join
  intro line hline
  rw [List.mem_append, List.mem_singleton] at hline
  rcases hline with hline | rfl
  · obtain ⟨request, hrequest, rfl⟩ := List.mem_map.1 hline
    exact unbroken_requestLine (h request hrequest)
  · exact List.all_iff_forall_prop.1 (by decide)

theorem input_of_invocation {kind : WrapperKind} {spec : ModelSpec} {readable : String → Bool}
    {requests : Requests} {i : Invocation} (h : kind.invocation spec readable requests = .ok i) :
    i.input = payload requests := by
  obtain ⟨model, -, h⟩ := bind_eq_ok.1 h
  obtain ⟨arguments, -, h⟩ := bind_eq_ok.1 h
  cases h
  rfl

/-- The requests can be read off the stream. -/
theorem toList_eq_of_payload_eq {requests requests' : Requests}
    (h : ∀ request ∈ requests.toList, BareRequest request)
    (h' : ∀ request ∈ requests'.toList, BareRequest request)
    (hpayload : payload requests = payload requests') : requests.toList = requests'.toList := by
  have hlines := lines_payload h
  rw [hpayload, lines_payload h'] at hlines
  exact eq_of_map_eq eq_of_requestLine_eq h h' (List.append_cancel_right hlines).symm

/-! ### Samples -/

/-- Some settings that pass the check have a parameter of this name. -/
def Accepted (name : String) : Prop :=
  ∃ s : Settings, s.validate = .ok () ∧ ∃ p ∈ s.parameters, p.name = name

/-- The constants of each request are those of a sample whose names are accepted. -/
def Sampled (requests : Requests) : Prop :=
  ∀ (id : ℕ) cs, requests[id]? = some cs →
    ∃ x : Sample, cs = x.toConstants ∧ ∀ coordinate ∈ x.values, Accepted coordinate.1

theorem Accepted.bare {name : String} (h : Accepted name) : Bare name := by
  obtain ⟨s, hs, p, hp, rfl⟩ := h
  obtain ⟨_, -, hs⟩ := bind_eq_ok.1 hs
  obtain ⟨_, hparameters, -⟩ := bind_eq_ok.1 hs
  exact bare_of_isIdentifier ((checkParameters_eq_ok_iff.1 hparameters).isIdentifier p hp)

theorem Sampled.bare {requests : Requests} (h : Sampled requests) :
    ∀ request ∈ requests.toList, BareRequest request := by
  rintro ⟨id, cs⟩ hrequest c hc
  obtain ⟨x, rfl, hx⟩ := h id cs (Std.TreeMap.mem_toList_iff_getElem?_eq_some.1 hrequest)
  obtain ⟨coordinate, hcoordinate, rfl⟩ := List.mem_map.1 hc
  exact ⟨(hx coordinate hcoordinate).bare, bare_shortText _⟩

/-- Samples with the same constants have the same names in the same order, with values that are
numerically equal. -/
theorem forall₂_of_toConstants_eq {x x' : Sample} (h : x.toConstants = x'.toConstants) :
    List.Forall₂ (fun v v' => v.1 = v'.1 ∧ v.2.SameValue v'.2) x.values x'.values := by
  rw [Sample.toConstants, Sample.toConstants, ← List.forall₂_eq_eq_eq, List.forall₂_map_left_iff,
    List.forall₂_map_right_iff] at h
  refine h.imp fun v v' heq => ?_
  exact ⟨congrArg Constant.name heq, sameValue_of_shortText_eq (congrArg Constant.value heq)⟩

/-- The input of a wrapper is a line for each request and the line that ends them, and requests with
the same input have the same numbers and, under each number, the same names in the same order with
numerically equal values. -/
theorem request_stream_decodable {kind kind' : WrapperKind} {spec spec' : ModelSpec}
    {readable readable' : String → Bool} {requests requests' : Requests} {i i' : Invocation}
    (hrequests : Sampled requests) (hrequests' : Sampled requests')
    (hi : kind.invocation spec readable requests = .ok i)
    (hi' : kind'.invocation spec' readable' requests' = .ok i') :
    lines i.input = requestLines requests ++ [endLine] ∧ endLine ∉ requestLines requests ∧
    (i.input = i'.input → requests.keys = requests'.keys ∧
      ∀ (id : ℕ) (x x' : Sample), requests[id]? = some x.toConstants →
        requests'[id]? = some x'.toConstants →
          List.Forall₂ (fun v v' => v.1 = v'.1 ∧ v.2.SameValue v'.2) x.values x'.values) := by
  rw [input_of_invocation hi, input_of_invocation hi']
  refine ⟨lines_payload hrequests.bare, ?_, fun hpayload => ?_⟩
  · intro hmem
    obtain ⟨request, -, hline⟩ := List.mem_map.1 hmem
    exact requestLine_ne_endLine _ _ hline
  · have hlist := toList_eq_of_payload_eq hrequests.bare hrequests'.bare hpayload
    constructor
    · rw [← Std.TreeMap.map_fst_toList_eq_keys, hlist, Std.TreeMap.map_fst_toList_eq_keys]
    · intro id x x' hx hx'
      have hmem := Std.TreeMap.mem_toList_iff_getElem?_eq_some.2 hx
      rw [hlist, Std.TreeMap.mem_toList_iff_getElem?_eq_some, hx'] at hmem
      exact forall₂_of_toConstants_eq (Option.some.inj hmem).symm

def oneParameterSettings : Settings where
  parameters := [⟨"p", .zero, .one⟩]
  oracle := { backend := .synthetic, expression := some "0.5" }

def dieSpec : ModelSpec where
  file := some "die.pm"
  type := some .prism
  property := some "P=? [F done]"

/-- One half with trailing zeros. -/
def longHalf : Decimal := ⟨false, 500, 3, by decide, by decide⟩

def requestAt (value : Decimal) : Requests :=
  Std.TreeMap.ofList [(3, (Sample.mk [("p", value)]).toConstants)]

theorem sampled_requestAt (value : Decimal) : Sampled (requestAt value) := by
  intro id cs h
  have hnodup : ([(3, (Sample.mk [("p", value)]).toConstants)].map Prod.fst).Nodup :=
    List.nodup_singleton 3
  obtain ⟨rfl, rfl⟩ := Prod.mk.inj (List.mem_singleton.1 ((getElem?_ofList_iff hnodup).1 h))
  refine ⟨_, rfl, fun coordinate hcoordinate => ?_⟩
  obtain rfl := List.mem_singleton.1 hcoordinate
  exact ⟨oneParameterSettings, by decide +kernel, _, List.mem_singleton_self _, rfl⟩

/-- Trailing zeros are not written. -/
theorem halves_same_stream :
    ∃ i i', WrapperKind.exact.invocation dieSpec (fun _ => true) (requestAt longHalf) = .ok i ∧
      WrapperKind.exact.invocation dieSpec (fun _ => true) (requestAt longHalf.normalize) =
        .ok i' ∧
      lines i.input = ["3:p=0.5", "EOF"] ∧ i.input = i'.input ∧ longHalf ≠ longHalf.normalize ∧
      longHalf.SameValue longHalf.normalize := by
  have hlong : WrapperKind.exact.invocation dieSpec (fun _ => true) (requestAt longHalf) =
      .ok _ := rfl
  have hshort : WrapperKind.exact.invocation dieSpec (fun _ => true)
      (requestAt longHalf.normalize) = .ok _ := rfl
  refine ⟨_, _, hlong, hshort, ?_⟩
  obtain ⟨hlines, -, hdecoded⟩ := request_stream_decodable (sampled_requestAt longHalf)
    (sampled_requestAt longHalf.normalize) hlong hshort
  have hinput : payload (requestAt longHalf) = payload (requestAt longHalf.normalize) := by
    decide +kernel
  obtain ⟨-, hvalues⟩ := hdecoded hinput
  have hsame := hvalues 3 ⟨[("p", longHalf)]⟩ ⟨[("p", longHalf.normalize)]⟩ rfl rfl
  refine ⟨?_, hinput, by decide +kernel, (List.forall₂_cons.1 hsame).1.2⟩
  exact hlines.trans (by decide +kernel)

end MarkovFit.Proofs
