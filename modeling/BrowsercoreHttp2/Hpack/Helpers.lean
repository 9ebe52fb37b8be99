import Mathlib.Data.List.Induction
import BrowsercoreHttp2.Hpack.Encoder
import BrowsercoreHttp2.Library.Table

/-!
# Header maps

`encodeHeaders` and `decodeHeaders` work with an encoder or a decoder made for the one call.
-/

namespace BrowsercoreHttp2

/-- An ordered map from header names to values. -/
abbrev HeaderMap := Table (Prod.fst : String × String → String)

def HeaderMap.value (headers : HeaderMap) (name : String) : Option String := (headers.get name).map Prod.snd

structure EncodeHeadersOptions where
  indexing : Option Bool := none
  useHuffman : Option Bool := none
  maxTableSize : Option Int := none
  deriving DecidableEq

def encodeHeaders (headers : HeaderMap) (options : EncodeHeadersOptions) : Except HpackError Bytes :=
  let encoder := HpackEncoder.create options.maxTableSize options.useHuffman
  let indexing := options.indexing.getD false
  let block := headers.entries.map fun (name, value) => ({ name, value, indexing } : HeaderField)
  (encoder.encode block).2

/-- The map of a block: a later field replaces an earlier one of its name. -/
def headerMap (block : HeaderBlock) : HeaderMap :=
  block.foldl (fun out field => out.set (field.name, field.value)) .empty

def decodeHeaders (buf : Bytes) : Except HpackError HeaderMap :=
  match (HpackDecoder.initial.decode buf).2 with
  | .error e => .error e
  | .ok block => .ok (headerMap block)

theorem headerMap_value (block : HeaderBlock) (name : String) :
    (headerMap block).value name = (block.filter fun field => field.name = name).getLast?.map HeaderField.value := by
  induction block using List.reverseRecOn with
  | nil => rfl
  | append_singleton block field ih =>
      rw [headerMap, List.foldl_append, List.foldl_cons, List.foldl_nil, HeaderMap.value, Table.get_set, List.filter_append]
      by_cases hname : field.name = name
      · simp [hname]
      · have hnone : [field].filter (fun field => field.name = name) = [] := by simp [hname]
        rw [if_neg hname, hnone, List.append_nil]
        exact ih

end BrowsercoreHttp2
