import NebulaToken.Ports.Parsers
import NebulaToken.Runs.Execution

/-! # Minting and parsing

What an engine mints, it accepts: the constructor asks of a kid what the parser asks of it, the digest
of the record is the one the proof computes, and a token has one reading.

* `mintToken_eq_iff`: a token tells the kid and the bytes it was minted from;
* `mint_parse_inverse`: the token parses to them, in C# too, and is proved against its record. -/

namespace NebulaToken.Safety.Minting

open NebulaToken.Lib.Codec NebulaToken.Lib.Base64 NebulaToken.Lib.KeyedTable
open NebulaToken.Token.Unicode NebulaToken.Token.Wire NebulaToken.Engine.Records
open NebulaToken.Engine.Config NebulaToken.Engine.Operations NebulaToken.Runs.Execution
open NebulaToken.Ports

variable {H : HmacSha256} {e : NebulaEngine}

/-! ### C# -/

/-- The token of C#'s `Mint`. -/
def csharpToken (e : NebulaEngine) (d : Draw) : Str :=
  nblPrefix ++ dot :: (e.activeKid ++ dot :: (Base64url.CSharp.base64UrlEncode d.selector ++
    dot :: Base64url.CSharp.base64UrlEncode d.verifier))

theorem csharpToken_eq (e : NebulaEngine) (d : Draw) : csharpToken e d = mintToken e d := by
  rw [csharpToken, mintToken, tokenString_eq, Base64url.CSharp.base64UrlEncode_eq,
    Base64url.CSharp.base64UrlEncode_eq, Parsers.encode_url16, Parsers.encode_url16]
  rfl

theorem csharp_parseToken (strict : Bool) (s : Str) :
    Parsers.CSharp.parseToken strict s = parseToken s :=
  Option.ext fun _ => (Parsers.CSharp.parseToken_iff strict).trans Parsers.typescript_iff.symm

/-! ### The minted token -/

theorem byteLength_mintToken (d : Draw) : byteLength (mintToken e d) ≤ maxTokenLength :=
  (Parsers.typescript_iff.mp (parseToken_mintToken e d)).bytes

theorem base64urlEncode_injective : Function.Injective base64urlEncode :=
  Function.LeftInverse.injective base64urlDecode_encode

/-- **A token tells the kid and the bytes it was minted from.** -/
theorem mintToken_eq_iff {e' : NebulaEngine} {d d' : Draw} : mintToken e d = mintToken e' d' ↔
    e.activeKid = e'.activeKid ∧ d.selector = d'.selector ∧ d.verifier = d'.verifier := by
  constructor
  · intro h
    have hparse := parseToken_mintToken e d
    rw [h, parseToken_mintToken] at hparse
    obtain ⟨hkid, hsel, hver⟩ := ParsedToken.mk.injEq .. ▸ Option.some.inj hparse
    exact ⟨hkid.symm, (base64urlEncode_injective hsel).symm, hver.symm⟩
  · rintro ⟨hkid, hsel, hver⟩
    rw [mintToken, mintToken, Draw.selectorText, Draw.selectorText, hkid, hsel, hver]

/-- The record of a minted token proves it. -/
theorem proveVerifier_mintRecord (args : MintArgs) (d : Draw) {kid selector : Str} :
    proveVerifier H e (mintRecord H e args d) ⟨kid, selector, d.verifier⟩ = .ok e.activePepper := by
  have hpepper : e.peppers.get (mintRecord H e args d).kid = some e.activePepper := e.get_activeKid
  unfold proveVerifier
  rw [hpepper]
  exact if_pos (constantTimeEqualHex_hashVerifier H e.activePepper d.verifier)

/-- **Mint and parse are inverse**, for every configuration the constructor accepts: the token parses to
the active kid, the selector of its record and the bytes of the verifier, it is short enough, its
verifier is proved against its record under the pepper of the record's kid, and no other kid and bytes
make the same token. -/
theorem mint_parse_inverse {config : NebulaConfig} (h : NebulaEngine.new config = .ok e)
    (args : MintArgs) (d : Draw) (strict : Bool) :
    let record := mintRecord H e args d
    let parsed : ParsedToken := ⟨config.activeKid, record.selector, d.verifier⟩
    parseToken (mintToken e d) = some parsed ∧
      Parsers.CSharp.parseToken strict (csharpToken e d) = some parsed ∧
      byteLength (mintToken e d) ≤ maxTokenLength ∧
      parseConfigured e (mintToken e d) = .ok parsed ∧
      (∃ pepper, config.peppers.get record.kid = some pepper ∧
        constantTimeEqualHex (hashVerifier H pepper parsed.verifier) record.verifierHash = true ∧
        proveVerifier H e record parsed = .ok pepper) ∧
      ∀ config' e' d', NebulaEngine.new config' = .ok e' → mintToken e' d' = mintToken e d →
        config'.activeKid = config.activeKid ∧ d'.selector = d.selector ∧ d'.verifier = d.verifier := by
  obtain ⟨hpeppers, hkid⟩ := NebulaEngine.of_new h
  have hparse := parseToken_mintToken e d
  rw [hkid] at hparse
  refine ⟨hparse, ?_, byteLength_mintToken d, ?_, ⟨e.activePepper, ?_, ?_, ?_⟩, ?_⟩
  · rw [csharp_parseToken, csharpToken_eq]
    exact hparse
  · unfold parseConfigured
    rw [hparse]
    exact if_pos (hkid ▸ e.activeKid_present)
  · rw [← hpeppers]
    exact e.get_activeKid
  · exact constantTimeEqualHex_hashVerifier H e.activePepper d.verifier
  · exact proveVerifier_mintRecord args d
  · intro config' e' d' h' heq
    obtain ⟨hkids, hbytes⟩ := mintToken_eq_iff.mp heq
    rw [← (NebulaEngine.of_new h').2, ← hkid]
    exact ⟨hkids, hbytes⟩

/-- The sample engine, and the token of the draw of sevens. -/
theorem mint_parse_inverse_sample :
    parseToken (mintToken (sampleEngine 0) (sampleDraw 7)) =
      some ⟨sampleKid, (sampleDraw 7).selectorText, List.replicate 32 7⟩ :=
  (mint_parse_inverse (H := sampleHmac) (sampleEngine 0).new_config
    ⟨ascii ['u'], ascii ['f'], 0, none, 2000, 1000⟩ (sampleDraw 7) true).1

end NebulaToken.Safety.Minting
