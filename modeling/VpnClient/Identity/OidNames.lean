import VpnClient.Identity.Asn1

/-!
# The table of known OIDs

`oid_names` (`libstrongswan/asn1/oid.c`) is generated by `oid.pl` from `oid.txt`: one
entry per line of `oid.txt`, in its order, with the octet of the line, the index of the
next line at the same depth before the depth falls below it (`0` for none), whether the
line after it is deeper (`down`), and the depth (`level`, half the indentation). The
`OID_*` constants of `oid.h` are the indices of the lines that name them.

Read as a trie over the octets of an OID's contents, the table answers two questions:
`asn1_known_oid` walks down it from the first line to the entry an OID's contents end on,
and `asn1_build_known_oid` climbs back from an entry to the first level, collecting one
octet per level, and wraps them into an OID object. The DN text functions of
`identification.c` use both, for the entries of their `x501rdns` table
(`Identity/DnText.lean`).
-/

namespace VpnClient.Identity

/-- An entry of `oid_names` (`oid_t`). -/
structure OidT where
  octet : UInt8
  next : ℕ
  down : Bool
  level : ℕ
  name : String
  deriving DecidableEq, Repr

/-- `oid_names`, as `oid.pl` writes it from `oid.txt`. -/
def oidNames : List OidT := [
  ⟨0x02, 7, true, 0, "ITU-T Administration"⟩,
  ⟨0x82, 0, true, 1, ""⟩,
  ⟨0x06, 0, true, 2, "Germany ITU-T member"⟩,
  ⟨0x01, 0, true, 3, "Deutsche Telekom AG"⟩,
  ⟨0x0A, 0, true, 4, ""⟩,
  ⟨0x07, 0, true, 5, ""⟩,
  ⟨0x14, 0, false, 6, "ND"⟩,
  ⟨0x09, 18, true, 0, "data"⟩,
  ⟨0x92, 0, true, 1, ""⟩,
  ⟨0x26, 0, true, 2, ""⟩,
  ⟨0x89, 0, true, 3, ""⟩,
  ⟨0x93, 0, true, 4, ""⟩,
  ⟨0xF2, 0, true, 5, ""⟩,
  ⟨0x2C, 0, true, 6, ""⟩,
  ⟨0x64, 0, true, 7, "pilot"⟩,
  ⟨0x01, 0, true, 8, "pilotAttributeType"⟩,
  ⟨0x01, 17, false, 9, "UID"⟩,
  ⟨0x19, 0, false, 9, "DC"⟩,
  ⟨0x55, 70, true, 0, "X.500"⟩,
  ⟨0x04, 42, true, 1, "X.509"⟩,
  ⟨0x03, 21, false, 2, "CN"⟩,
  ⟨0x04, 22, false, 2, "SN"⟩,
  ⟨0x05, 23, false, 2, "serialNumber"⟩,
  ⟨0x06, 24, false, 2, "C"⟩,
  ⟨0x07, 25, false, 2, "L"⟩,
  ⟨0x08, 26, false, 2, "ST"⟩,
  ⟨0x09, 27, false, 2, "STREET"⟩,
  ⟨0x0A, 28, false, 2, "O"⟩,
  ⟨0x0B, 29, false, 2, "OU"⟩,
  ⟨0x0C, 30, false, 2, "T"⟩,
  ⟨0x0D, 31, false, 2, "D"⟩,
  ⟨0x10, 32, false, 2, "postalAddress"⟩,
  ⟨0x11, 33, false, 2, "postalCode"⟩,
  ⟨0x24, 34, false, 2, "userCertificate"⟩,
  ⟨0x29, 35, false, 2, "N"⟩,
  ⟨0x2A, 36, false, 2, "G"⟩,
  ⟨0x2B, 37, false, 2, "I"⟩,
  ⟨0x2D, 38, false, 2, "ID"⟩,
  ⟨0x2E, 39, false, 2, "dnQualifier"⟩,
  ⟨0x36, 40, false, 2, "dmdName"⟩,
  ⟨0x41, 41, false, 2, "pseudonym"⟩,
  ⟨0x48, 0, false, 2, "role"⟩,
  ⟨0x1D, 0, true, 1, "id-ce"⟩,
  ⟨0x09, 44, false, 2, "subjectDirectoryAttrs"⟩,
  ⟨0x0E, 45, false, 2, "subjectKeyIdentifier"⟩,
  ⟨0x0F, 46, false, 2, "keyUsage"⟩,
  ⟨0x10, 47, false, 2, "privateKeyUsagePeriod"⟩,
  ⟨0x11, 48, false, 2, "subjectAltName"⟩,
  ⟨0x12, 49, false, 2, "issuerAltName"⟩,
  ⟨0x13, 50, false, 2, "basicConstraints"⟩,
  ⟨0x14, 51, false, 2, "crlNumber"⟩,
  ⟨0x15, 52, false, 2, "reasonCode"⟩,
  ⟨0x17, 53, false, 2, "holdInstructionCode"⟩,
  ⟨0x18, 54, false, 2, "invalidityDate"⟩,
  ⟨0x1B, 55, false, 2, "deltaCrlIndicator"⟩,
  ⟨0x1C, 56, false, 2, "issuingDistributionPoint"⟩,
  ⟨0x1D, 57, false, 2, "certificateIssuer"⟩,
  ⟨0x1E, 58, false, 2, "nameConstraints"⟩,
  ⟨0x1F, 59, false, 2, "crlDistributionPoints"⟩,
  ⟨0x20, 61, true, 2, "certificatePolicies"⟩,
  ⟨0x00, 0, false, 3, "anyPolicy"⟩,
  ⟨0x21, 62, false, 2, "policyMappings"⟩,
  ⟨0x23, 63, false, 2, "authorityKeyIdentifier"⟩,
  ⟨0x24, 64, false, 2, "policyConstraints"⟩,
  ⟨0x25, 66, true, 2, "extendedKeyUsage"⟩,
  ⟨0x00, 0, false, 3, "anyExtendedKeyUsage"⟩,
  ⟨0x2E, 67, false, 2, "freshestCRL"⟩,
  ⟨0x36, 68, false, 2, "inhibitAnyPolicy"⟩,
  ⟨0x37, 69, false, 2, "targetInformation"⟩,
  ⟨0x38, 0, false, 2, "noRevAvail"⟩,
  ⟨0x2A, 202, true, 0, ""⟩,
  ⟨0x83, 83, true, 1, ""⟩,
  ⟨0x08, 0, true, 2, "jp"⟩,
  ⟨0x8C, 0, true, 3, ""⟩,
  ⟨0x9A, 0, true, 4, ""⟩,
  ⟨0x4B, 0, true, 5, ""⟩,
  ⟨0x3D, 0, true, 6, ""⟩,
  ⟨0x01, 0, true, 7, "security"⟩,
  ⟨0x01, 0, true, 8, "algorithm"⟩,
  ⟨0x01, 0, true, 9, "symm-encryption-alg"⟩,
  ⟨0x02, 81, false, 10, "camellia128-cbc"⟩,
  ⟨0x03, 82, false, 10, "camellia192-cbc"⟩,
  ⟨0x04, 0, false, 10, "camellia256-cbc"⟩,
  ⟨0x86, 0, true, 1, ""⟩,
  ⟨0x48, 0, true, 2, "us"⟩,
  ⟨0x86, 161, true, 3, ""⟩,
  ⟨0xF6, 91, true, 4, ""⟩,
  ⟨0x7D, 0, true, 5, "NortelNetworks"⟩,
  ⟨0x07, 0, true, 6, "Entrust"⟩,
  ⟨0x41, 0, true, 7, "nsn-ce"⟩,
  ⟨0x00, 0, false, 8, "entrustVersInfo"⟩,
  ⟨0xF7, 0, true, 4, ""⟩,
  ⟨0x0D, 0, true, 5, "RSADSI"⟩,
  ⟨0x01, 149, true, 6, "PKCS"⟩,
  ⟨0x01, 107, true, 7, "PKCS-1"⟩,
  ⟨0x01, 96, false, 8, "rsaEncryption"⟩,
  ⟨0x02, 97, false, 8, "md2WithRSAEncryption"⟩,
  ⟨0x04, 98, false, 8, "md5WithRSAEncryption"⟩,
  ⟨0x05, 99, false, 8, "sha-1WithRSAEncryption"⟩,
  ⟨0x07, 100, false, 8, "id-RSAES-OAEP"⟩,
  ⟨0x08, 101, false, 8, "id-mgf1"⟩,
  ⟨0x09, 102, false, 8, "id-pSpecified"⟩,
  ⟨0x0A, 103, false, 8, "RSASSA-PSS"⟩,
  ⟨0x0B, 104, false, 8, "sha256WithRSAEncryption"⟩,
  ⟨0x0C, 105, false, 8, "sha384WithRSAEncryption"⟩,
  ⟨0x0D, 106, false, 8, "sha512WithRSAEncryption"⟩,
  ⟨0x0E, 0, false, 8, "sha224WithRSAEncryption"⟩,
  ⟨0x05, 112, true, 7, "PKCS-5"⟩,
  ⟨0x03, 109, false, 8, "pbeWithMD5AndDES-CBC"⟩,
  ⟨0x0A, 110, false, 8, "pbeWithSHA1AndDES-CBC"⟩,
  ⟨0x0C, 111, false, 8, "id-PBKDF2"⟩,
  ⟨0x0D, 0, false, 8, "id-PBES2"⟩,
  ⟨0x07, 119, true, 7, "PKCS-7"⟩,
  ⟨0x01, 114, false, 8, "data"⟩,
  ⟨0x02, 115, false, 8, "signedData"⟩,
  ⟨0x03, 116, false, 8, "envelopedData"⟩,
  ⟨0x04, 117, false, 8, "signedAndEnvelopedData"⟩,
  ⟨0x05, 118, false, 8, "digestedData"⟩,
  ⟨0x06, 0, false, 8, "encryptedData"⟩,
  ⟨0x09, 133, true, 7, "PKCS-9"⟩,
  ⟨0x01, 121, false, 8, "E"⟩,
  ⟨0x02, 122, false, 8, "unstructuredName"⟩,
  ⟨0x03, 123, false, 8, "contentType"⟩,
  ⟨0x04, 124, false, 8, "messageDigest"⟩,
  ⟨0x05, 125, false, 8, "signingTime"⟩,
  ⟨0x06, 126, false, 8, "counterSignature"⟩,
  ⟨0x07, 127, false, 8, "challengePassword"⟩,
  ⟨0x08, 128, false, 8, "unstructuredAddress"⟩,
  ⟨0x0E, 129, false, 8, "extensionRequest"⟩,
  ⟨0x0F, 130, false, 8, "S/MIME Capabilities"⟩,
  ⟨0x16, 0, true, 8, "certTypes"⟩,
  ⟨0x01, 132, false, 9, "X.509"⟩,
  ⟨0x02, 0, false, 9, "SDSI"⟩,
  ⟨0x0C, 0, true, 7, "PKCS-12"⟩,
  ⟨0x01, 141, true, 8, "pbeIds"⟩,
  ⟨0x01, 136, false, 9, "pbeWithSHAAnd128BitRC4"⟩,
  ⟨0x02, 137, false, 9, "pbeWithSHAAnd40BitRC4"⟩,
  ⟨0x03, 138, false, 9, "pbeWithSHAAnd3-KeyTripleDES-CBC"⟩,
  ⟨0x04, 139, false, 9, "pbeWithSHAAnd2-KeyTripleDES-CBC"⟩,
  ⟨0x05, 140, false, 9, "pbeWithSHAAnd128BitRC2-CBC"⟩,
  ⟨0x06, 0, false, 9, "pbeWithSHAAnd40BitRC2-CBC"⟩,
  ⟨0x0A, 0, true, 8, "PKCS-12v1"⟩,
  ⟨0x01, 0, true, 9, "bagIds"⟩,
  ⟨0x01, 144, false, 10, "keyBag"⟩,
  ⟨0x02, 145, false, 10, "pkcs8ShroudedKeyBag"⟩,
  ⟨0x03, 146, false, 10, "certBag"⟩,
  ⟨0x04, 147, false, 10, "crlBag"⟩,
  ⟨0x05, 148, false, 10, "secretBag"⟩,
  ⟨0x06, 0, false, 10, "safeContentsBag"⟩,
  ⟨0x02, 159, true, 6, "digestAlgorithm"⟩,
  ⟨0x02, 151, false, 7, "md2"⟩,
  ⟨0x05, 152, false, 7, "md5"⟩,
  ⟨0x07, 153, false, 7, "hmacWithSHA1"⟩,
  ⟨0x08, 154, false, 7, "hmacWithSHA224"⟩,
  ⟨0x09, 155, false, 7, "hmacWithSHA256"⟩,
  ⟨0x0A, 156, false, 7, "hmacWithSHA384"⟩,
  ⟨0x0B, 157, false, 7, "hmacWithSHA512"⟩,
  ⟨0x0C, 158, false, 7, "hmacWithSHA512-224"⟩,
  ⟨0x0D, 0, false, 7, "hmacWithSHA512-256"⟩,
  ⟨0x03, 0, true, 6, "encryptionAlgorithm"⟩,
  ⟨0x07, 0, false, 7, "3des-ede-cbc"⟩,
  ⟨0xCE, 0, true, 3, ""⟩,
  ⟨0x3D, 0, true, 4, "ansi-X9-62"⟩,
  ⟨0x02, 165, true, 5, "id-publicKeyType"⟩,
  ⟨0x01, 0, false, 6, "id-ecPublicKey"⟩,
  ⟨0x03, 195, true, 5, "ellipticCurve"⟩,
  ⟨0x00, 187, true, 6, "c-TwoCurve"⟩,
  ⟨0x01, 168, false, 7, "c2pnb163v1"⟩,
  ⟨0x02, 169, false, 7, "c2pnb163v2"⟩,
  ⟨0x03, 170, false, 7, "c2pnb163v3"⟩,
  ⟨0x04, 171, false, 7, "c2pnb176w1"⟩,
  ⟨0x05, 172, false, 7, "c2tnb191v1"⟩,
  ⟨0x06, 173, false, 7, "c2tnb191v2"⟩,
  ⟨0x07, 174, false, 7, "c2tnb191v3"⟩,
  ⟨0x08, 175, false, 7, "c2onb191v4"⟩,
  ⟨0x09, 176, false, 7, "c2onb191v5"⟩,
  ⟨0x0A, 177, false, 7, "c2pnb208w1"⟩,
  ⟨0x0B, 178, false, 7, "c2tnb239v1"⟩,
  ⟨0x0C, 179, false, 7, "c2tnb239v2"⟩,
  ⟨0x0D, 180, false, 7, "c2tnb239v3"⟩,
  ⟨0x0E, 181, false, 7, "c2onb239v4"⟩,
  ⟨0x0F, 182, false, 7, "c2onb239v5"⟩,
  ⟨0x10, 183, false, 7, "c2pnb272w1"⟩,
  ⟨0x11, 184, false, 7, "c2pnb304w1"⟩,
  ⟨0x12, 185, false, 7, "c2tnb359v1"⟩,
  ⟨0x13, 186, false, 7, "c2pnb368w1"⟩,
  ⟨0x14, 0, false, 7, "c2tnb431r1"⟩,
  ⟨0x01, 0, true, 6, "primeCurve"⟩,
  ⟨0x01, 189, false, 7, "prime192v1"⟩,
  ⟨0x02, 190, false, 7, "prime192v2"⟩,
  ⟨0x03, 191, false, 7, "prime192v3"⟩,
  ⟨0x04, 192, false, 7, "prime239v1"⟩,
  ⟨0x05, 193, false, 7, "prime239v2"⟩,
  ⟨0x06, 194, false, 7, "prime239v3"⟩,
  ⟨0x07, 0, false, 7, "prime256v1"⟩,
  ⟨0x04, 0, true, 5, "id-ecSigType"⟩,
  ⟨0x01, 197, false, 6, "ecdsa-with-SHA1"⟩,
  ⟨0x03, 0, true, 6, "ecdsa-with-Specified"⟩,
  ⟨0x01, 199, false, 7, "ecdsa-with-SHA224"⟩,
  ⟨0x02, 200, false, 7, "ecdsa-with-SHA256"⟩,
  ⟨0x03, 201, false, 7, "ecdsa-with-SHA384"⟩,
  ⟨0x04, 0, false, 7, "ecdsa-with-SHA512"⟩,
  ⟨0x2B, 433, true, 0, ""⟩,
  ⟨0x06, 344, true, 1, "dod"⟩,
  ⟨0x01, 0, true, 2, "internet"⟩,
  ⟨0x04, 294, true, 3, "private"⟩,
  ⟨0x01, 0, true, 4, "enterprise"⟩,
  ⟨0x82, 244, true, 5, ""⟩,
  ⟨0x37, 220, true, 6, "Microsoft"⟩,
  ⟨0x0A, 213, true, 7, ""⟩,
  ⟨0x03, 0, true, 8, ""⟩,
  ⟨0x03, 212, false, 9, "msSGC"⟩,
  ⟨0x04, 0, false, 9, "msEncryptingFileSystem"⟩,
  ⟨0x14, 217, true, 7, "msEnrollmentInfrastructure"⟩,
  ⟨0x02, 0, true, 8, "msCertTypeExtension"⟩,
  ⟨0x02, 216, false, 9, "msSmartcardLogon"⟩,
  ⟨0x03, 0, false, 9, "msUPN"⟩,
  ⟨0x15, 0, true, 7, "msCertSrvInfrastructure"⟩,
  ⟨0x07, 219, false, 8, "msCertTemplate"⟩,
  ⟨0x0A, 0, false, 8, "msApplicationCertPolicies"⟩,
  ⟨0xA0, 0, true, 6, ""⟩,
  ⟨0x2A, 0, true, 7, "ITA"⟩,
  ⟨0x01, 223, false, 8, "strongSwan"⟩,
  ⟨0x02, 224, false, 8, "cps"⟩,
  ⟨0x03, 225, false, 8, "e-voting"⟩,
  ⟨0x05, 0, true, 8, "BLISS"⟩,
  ⟨0x01, 228, true, 9, "keyType"⟩,
  ⟨0x01, 0, false, 10, "blissPublicKey"⟩,
  ⟨0x02, 237, true, 9, "parameters"⟩,
  ⟨0x01, 230, false, 10, "BLISS-I"⟩,
  ⟨0x02, 231, false, 10, "BLISS-II"⟩,
  ⟨0x03, 232, false, 10, "BLISS-III"⟩,
  ⟨0x04, 233, false, 10, "BLISS-IV"⟩,
  ⟨0x05, 234, false, 10, "BLISS-B-I"⟩,
  ⟨0x06, 235, false, 10, "BLISS-B-II"⟩,
  ⟨0x07, 236, false, 10, "BLISS-B-III"⟩,
  ⟨0x08, 0, false, 10, "BLISS-B-IV"⟩,
  ⟨0x03, 0, true, 9, "blissSigType"⟩,
  ⟨0x01, 239, false, 10, "BLISS-with-SHA2-512"⟩,
  ⟨0x02, 240, false, 10, "BLISS-with-SHA2-384"⟩,
  ⟨0x03, 241, false, 10, "BLISS-with-SHA2-256"⟩,
  ⟨0x04, 242, false, 10, "BLISS-with-SHA3-512"⟩,
  ⟨0x05, 243, false, 10, "BLISS-with-SHA3-384"⟩,
  ⟨0x06, 0, false, 10, "BLISS-with-SHA3-256"⟩,
  ⟨0x89, 251, true, 5, ""⟩,
  ⟨0x31, 0, true, 6, ""⟩,
  ⟨0x01, 0, true, 7, ""⟩,
  ⟨0x01, 0, true, 8, ""⟩,
  ⟨0x02, 0, true, 9, ""⟩,
  ⟨0x02, 0, true, 10, ""⟩,
  ⟨0x4B, 0, false, 11, "TCGID"⟩,
  ⟨0x97, 255, true, 5, ""⟩,
  ⟨0x55, 0, true, 6, ""⟩,
  ⟨0x01, 0, true, 7, ""⟩,
  ⟨0x02, 0, false, 8, "blowfish-cbc"⟩,
  ⟨0xC1, 0, true, 5, ""⟩,
  ⟨0x16, 0, true, 6, "ntruCryptosystems"⟩,
  ⟨0x01, 0, true, 7, "eess"⟩,
  ⟨0x01, 0, true, 8, "eess1"⟩,
  ⟨0x01, 263, true, 9, "eess1-algs"⟩,
  ⟨0x01, 261, false, 10, "ntru-EESS1v1-SVES"⟩,
  ⟨0x02, 262, false, 10, "ntru-EESS1v1-SVSSA"⟩,
  ⟨0x03, 0, false, 10, "ntru-EESS1v1-NTRUSign"⟩,
  ⟨0x02, 293, true, 9, "eess1-params"⟩,
  ⟨0x01, 265, false, 10, "ees251ep1"⟩,
  ⟨0x02, 266, false, 10, "ees347ep1"⟩,
  ⟨0x03, 267, false, 10, "ees503ep1"⟩,
  ⟨0x07, 268, false, 10, "ees251sp2"⟩,
  ⟨0x0C, 269, false, 10, "ees251ep4"⟩,
  ⟨0x0D, 270, false, 10, "ees251ep5"⟩,
  ⟨0x0E, 271, false, 10, "ees251sp3"⟩,
  ⟨0x0F, 272, false, 10, "ees251sp4"⟩,
  ⟨0x10, 273, false, 10, "ees251sp5"⟩,
  ⟨0x11, 274, false, 10, "ees251sp6"⟩,
  ⟨0x12, 275, false, 10, "ees251sp7"⟩,
  ⟨0x13, 276, false, 10, "ees251sp8"⟩,
  ⟨0x14, 277, false, 10, "ees251sp9"⟩,
  ⟨0x22, 278, false, 10, "ees401ep1"⟩,
  ⟨0x23, 279, false, 10, "ees449ep1"⟩,
  ⟨0x24, 280, false, 10, "ees677ep1"⟩,
  ⟨0x25, 281, false, 10, "ees1087ep2"⟩,
  ⟨0x26, 282, false, 10, "ees541ep1"⟩,
  ⟨0x27, 283, false, 10, "ees613ep1"⟩,
  ⟨0x28, 284, false, 10, "ees887ep1"⟩,
  ⟨0x29, 285, false, 10, "ees1171ep1"⟩,
  ⟨0x2A, 286, false, 10, "ees659ep1"⟩,
  ⟨0x2B, 287, false, 10, "ees761ep1"⟩,
  ⟨0x2C, 288, false, 10, "ees1087ep1"⟩,
  ⟨0x2D, 289, false, 10, "ees1499ep1"⟩,
  ⟨0x2E, 290, false, 10, "ees401ep2"⟩,
  ⟨0x2F, 291, false, 10, "ees439ep1"⟩,
  ⟨0x30, 292, false, 10, "ees593ep1"⟩,
  ⟨0x31, 0, false, 10, "ees743ep1"⟩,
  ⟨0x03, 0, false, 9, "eess1-encodingMethods"⟩,
  ⟨0x05, 0, true, 3, "security"⟩,
  ⟨0x05, 0, true, 4, "mechanisms"⟩,
  ⟨0x07, 341, true, 5, "id-pkix"⟩,
  ⟨0x01, 302, true, 6, "id-pe"⟩,
  ⟨0x01, 299, false, 7, "authorityInfoAccess"⟩,
  ⟨0x03, 300, false, 7, "qcStatements"⟩,
  ⟨0x07, 301, false, 7, "ipAddrBlocks"⟩,
  ⟨0x18, 0, false, 7, "tlsfeature"⟩,
  ⟨0x02, 305, true, 6, "id-qt"⟩,
  ⟨0x01, 304, false, 7, "cps"⟩,
  ⟨0x02, 0, false, 7, "unotice"⟩,
  ⟨0x03, 315, true, 6, "id-kp"⟩,
  ⟨0x01, 307, false, 7, "serverAuth"⟩,
  ⟨0x02, 308, false, 7, "clientAuth"⟩,
  ⟨0x03, 309, false, 7, "codeSigning"⟩,
  ⟨0x04, 310, false, 7, "emailProtection"⟩,
  ⟨0x05, 311, false, 7, "ipsecEndSystem"⟩,
  ⟨0x06, 312, false, 7, "ipsecTunnel"⟩,
  ⟨0x07, 313, false, 7, "ipsecUser"⟩,
  ⟨0x08, 314, false, 7, "timeStamping"⟩,
  ⟨0x09, 0, false, 7, "ocspSigning"⟩,
  ⟨0x08, 323, true, 6, "id-otherNames"⟩,
  ⟨0x01, 317, false, 7, "personalData"⟩,
  ⟨0x02, 318, false, 7, "userGroup"⟩,
  ⟨0x03, 319, false, 7, "id-on-permanentIdentifier"⟩,
  ⟨0x04, 320, false, 7, "id-on-hardwareModuleName"⟩,
  ⟨0x05, 321, false, 7, "xmppAddr"⟩,
  ⟨0x06, 322, false, 7, "id-on-SIM"⟩,
  ⟨0x07, 0, false, 7, "id-on-dnsSRV"⟩,
  ⟨0x0A, 328, true, 6, "id-aca"⟩,
  ⟨0x01, 325, false, 7, "authenticationInfo"⟩,
  ⟨0x02, 326, false, 7, "accessIdentity"⟩,
  ⟨0x03, 327, false, 7, "chargingIdentity"⟩,
  ⟨0x04, 0, false, 7, "group"⟩,
  ⟨0x0B, 329, false, 6, "subjectInfoAccess"⟩,
  ⟨0x30, 0, true, 6, "id-ad"⟩,
  ⟨0x01, 338, true, 7, "ocsp"⟩,
  ⟨0x01, 332, false, 8, "basic"⟩,
  ⟨0x02, 333, false, 8, "nonce"⟩,
  ⟨0x03, 334, false, 8, "crl"⟩,
  ⟨0x04, 335, false, 8, "response"⟩,
  ⟨0x05, 336, false, 8, "noCheck"⟩,
  ⟨0x06, 337, false, 8, "archiveCutoff"⟩,
  ⟨0x07, 0, false, 8, "serviceLocator"⟩,
  ⟨0x02, 339, false, 7, "caIssuers"⟩,
  ⟨0x03, 340, false, 7, "timeStamping"⟩,
  ⟨0x05, 0, false, 7, "caRepository"⟩,
  ⟨0x08, 0, true, 5, "ipsec"⟩,
  ⟨0x02, 0, true, 6, "certificate"⟩,
  ⟨0x02, 0, false, 7, "iKEIntermediate"⟩,
  ⟨0x0E, 350, true, 1, "oiw"⟩,
  ⟨0x03, 0, true, 2, "secsig"⟩,
  ⟨0x02, 0, true, 3, "algorithms"⟩,
  ⟨0x07, 348, false, 4, "des-cbc"⟩,
  ⟨0x1A, 349, false, 4, "sha-1"⟩,
  ⟨0x1D, 0, false, 4, "sha-1WithRSASignature"⟩,
  ⟨0x24, 396, true, 1, "TeleTrusT"⟩,
  ⟨0x03, 0, true, 2, "algorithm"⟩,
  ⟨0x03, 0, true, 3, "signatureAlgorithm"⟩,
  ⟨0x01, 357, true, 4, "rsaSignature"⟩,
  ⟨0x02, 355, false, 5, "rsaSigWithripemd160"⟩,
  ⟨0x03, 356, false, 5, "rsaSigWithripemd128"⟩,
  ⟨0x04, 0, false, 5, "rsaSigWithripemd256"⟩,
  ⟨0x02, 0, true, 4, "ecSign"⟩,
  ⟨0x01, 359, false, 5, "ecSignWithsha1"⟩,
  ⟨0x02, 360, false, 5, "ecSignWithripemd160"⟩,
  ⟨0x03, 361, false, 5, "ecSignWithmd2"⟩,
  ⟨0x04, 362, false, 5, "ecSignWithmd5"⟩,
  ⟨0x05, 379, true, 5, "ttt-ecg"⟩,
  ⟨0x01, 367, true, 6, "fieldType"⟩,
  ⟨0x01, 0, true, 7, "characteristictwoField"⟩,
  ⟨0x01, 0, true, 8, "basisType"⟩,
  ⟨0x01, 0, false, 9, "ipBasis"⟩,
  ⟨0x02, 369, true, 6, "keyType"⟩,
  ⟨0x01, 0, false, 7, "ecgPublicKey"⟩,
  ⟨0x03, 370, false, 6, "curve"⟩,
  ⟨0x04, 377, true, 6, "signatures"⟩,
  ⟨0x01, 372, false, 7, "ecgdsa-with-RIPEMD160"⟩,
  ⟨0x02, 373, false, 7, "ecgdsa-with-SHA1"⟩,
  ⟨0x03, 374, false, 7, "ecgdsa-with-SHA224"⟩,
  ⟨0x04, 375, false, 7, "ecgdsa-with-SHA256"⟩,
  ⟨0x05, 376, false, 7, "ecgdsa-with-SHA384"⟩,
  ⟨0x06, 0, false, 7, "ecgdsa-with-SHA512"⟩,
  ⟨0x05, 0, true, 6, "module"⟩,
  ⟨0x01, 0, false, 7, "1"⟩,
  ⟨0x08, 0, true, 5, "ecStdCurvesAndGeneration"⟩,
  ⟨0x01, 0, true, 6, "ellipticCurve"⟩,
  ⟨0x01, 0, true, 7, "versionOne"⟩,
  ⟨0x01, 383, false, 8, "brainpoolP160r1"⟩,
  ⟨0x02, 384, false, 8, "brainpoolP160t1"⟩,
  ⟨0x03, 385, false, 8, "brainpoolP192r1"⟩,
  ⟨0x04, 386, false, 8, "brainpoolP192t1"⟩,
  ⟨0x05, 387, false, 8, "brainpoolP224r1"⟩,
  ⟨0x06, 388, false, 8, "brainpoolP224t1"⟩,
  ⟨0x07, 389, false, 8, "brainpoolP256r1"⟩,
  ⟨0x08, 390, false, 8, "brainpoolP256t1"⟩,
  ⟨0x09, 391, false, 8, "brainpoolP320r1"⟩,
  ⟨0x0A, 392, false, 8, "brainpoolP320t1"⟩,
  ⟨0x0B, 393, false, 8, "brainpoolP384r1"⟩,
  ⟨0x0C, 394, false, 8, "brainpoolP384t1"⟩,
  ⟨0x0D, 395, false, 8, "brainpoolP512r1"⟩,
  ⟨0x0E, 0, false, 8, "brainpoolP512t1"⟩,
  ⟨0x65, 399, true, 1, "Thawte"⟩,
  ⟨0x70, 398, false, 2, "id-Ed25519"⟩,
  ⟨0x71, 0, false, 2, "id-Ed448"⟩,
  ⟨0x81, 0, true, 1, ""⟩,
  ⟨0x04, 0, true, 2, "Certicom"⟩,
  ⟨0x00, 0, true, 3, "curve"⟩,
  ⟨0x01, 403, false, 4, "sect163k1"⟩,
  ⟨0x02, 404, false, 4, "sect163r1"⟩,
  ⟨0x03, 405, false, 4, "sect239k1"⟩,
  ⟨0x04, 406, false, 4, "sect113r1"⟩,
  ⟨0x05, 407, false, 4, "sect113r2"⟩,
  ⟨0x06, 408, false, 4, "secp112r1"⟩,
  ⟨0x07, 409, false, 4, "secp112r2"⟩,
  ⟨0x08, 410, false, 4, "secp160r1"⟩,
  ⟨0x09, 411, false, 4, "secp160k1"⟩,
  ⟨0x0A, 412, false, 4, "secp256k1"⟩,
  ⟨0x0F, 413, false, 4, "sect163r2"⟩,
  ⟨0x10, 414, false, 4, "sect283k1"⟩,
  ⟨0x11, 415, false, 4, "sect283r1"⟩,
  ⟨0x16, 416, false, 4, "sect131r1"⟩,
  ⟨0x17, 417, false, 4, "sect131r2"⟩,
  ⟨0x18, 418, false, 4, "sect193r1"⟩,
  ⟨0x19, 419, false, 4, "sect193r2"⟩,
  ⟨0x1A, 420, false, 4, "sect233k1"⟩,
  ⟨0x1B, 421, false, 4, "sect233r1"⟩,
  ⟨0x1C, 422, false, 4, "secp128r1"⟩,
  ⟨0x1D, 423, false, 4, "secp128r2"⟩,
  ⟨0x1E, 424, false, 4, "secp160r2"⟩,
  ⟨0x1F, 425, false, 4, "secp192k1"⟩,
  ⟨0x20, 426, false, 4, "secp224k1"⟩,
  ⟨0x21, 427, false, 4, "secp224r1"⟩,
  ⟨0x22, 428, false, 4, "secp384r1"⟩,
  ⟨0x23, 429, false, 4, "secp521r1"⟩,
  ⟨0x24, 430, false, 4, "sect409k1"⟩,
  ⟨0x25, 431, false, 4, "sect409r1"⟩,
  ⟨0x26, 432, false, 4, "sect571k1"⟩,
  ⟨0x27, 0, false, 4, "sect571r1"⟩,
  ⟨0x60, 496, true, 0, ""⟩,
  ⟨0x86, 0, true, 1, ""⟩,
  ⟨0x48, 0, true, 2, ""⟩,
  ⟨0x01, 0, true, 3, "organization"⟩,
  ⟨0x65, 472, true, 4, "gov"⟩,
  ⟨0x03, 0, true, 5, "csor"⟩,
  ⟨0x04, 0, true, 6, "nistalgorithm"⟩,
  ⟨0x01, 450, true, 7, "aes"⟩,
  ⟨0x02, 442, false, 8, "id-aes128-CBC"⟩,
  ⟨0x06, 443, false, 8, "id-aes128-GCM"⟩,
  ⟨0x07, 444, false, 8, "id-aes128-CCM"⟩,
  ⟨0x16, 445, false, 8, "id-aes192-CBC"⟩,
  ⟨0x1A, 446, false, 8, "id-aes192-GCM"⟩,
  ⟨0x1B, 447, false, 8, "id-aes192-CCM"⟩,
  ⟨0x2A, 448, false, 8, "id-aes256-CBC"⟩,
  ⟨0x2E, 449, false, 8, "id-aes256-GCM"⟩,
  ⟨0x2F, 0, false, 8, "id-aes256-CCM"⟩,
  ⟨0x02, 463, true, 7, "hashAlgs"⟩,
  ⟨0x01, 452, false, 8, "id-sha256"⟩,
  ⟨0x02, 453, false, 8, "id-sha384"⟩,
  ⟨0x03, 454, false, 8, "id-sha512"⟩,
  ⟨0x04, 455, false, 8, "id-sha224"⟩,
  ⟨0x05, 456, false, 8, "id-sha512-224"⟩,
  ⟨0x06, 457, false, 8, "id-sha512-256"⟩,
  ⟨0x07, 458, false, 8, "id-sha3-224"⟩,
  ⟨0x08, 459, false, 8, "id-sha3-256"⟩,
  ⟨0x09, 460, false, 8, "id-sha3-384"⟩,
  ⟨0x0A, 461, false, 8, "id-sha3-512"⟩,
  ⟨0x0B, 462, false, 8, "id-shake128"⟩,
  ⟨0x0C, 0, false, 8, "id-shake256"⟩,
  ⟨0x03, 0, true, 7, "sigAlgs"⟩,
  ⟨0x09, 465, false, 8, "id-ecdsa-with-sha3-224"⟩,
  ⟨0x0A, 466, false, 8, "id-ecdsa-with-sha3-256"⟩,
  ⟨0x0B, 467, false, 8, "id-ecdsa-with-sha3-384"⟩,
  ⟨0x0C, 468, false, 8, "id-ecdsa-with-sha3-512"⟩,
  ⟨0x0D, 469, false, 8, "id-rsassa-pkcs1v15-with-sha3-224"⟩,
  ⟨0x0E, 470, false, 8, "id-rsassa-pkcs1v15-with-sha3-256"⟩,
  ⟨0x0F, 471, false, 8, "id-rsassa-pkcs1v15-with-sha3-384"⟩,
  ⟨0x10, 0, false, 8, "id-rsassa-pkcs1v15-with-sha3-512"⟩,
  ⟨0x86, 0, true, 4, ""⟩,
  ⟨0xF8, 0, true, 5, ""⟩,
  ⟨0x42, 486, true, 6, "netscape"⟩,
  ⟨0x01, 481, true, 7, ""⟩,
  ⟨0x01, 477, false, 8, "nsCertType"⟩,
  ⟨0x03, 478, false, 8, "nsRevocationUrl"⟩,
  ⟨0x04, 479, false, 8, "nsCaRevocationUrl"⟩,
  ⟨0x08, 480, false, 8, "nsCaPolicyUrl"⟩,
  ⟨0x0D, 0, false, 8, "nsComment"⟩,
  ⟨0x03, 484, true, 7, "directory"⟩,
  ⟨0x01, 0, true, 8, ""⟩,
  ⟨0x03, 0, false, 9, "employeeNumber"⟩,
  ⟨0x04, 0, true, 7, "policy"⟩,
  ⟨0x01, 0, false, 8, "nsSGC"⟩,
  ⟨0x45, 0, true, 6, "verisign"⟩,
  ⟨0x01, 0, true, 7, "pki"⟩,
  ⟨0x09, 0, true, 8, "attributes"⟩,
  ⟨0x02, 490, false, 9, "messageType"⟩,
  ⟨0x03, 491, false, 9, "pkiStatus"⟩,
  ⟨0x04, 492, false, 9, "failInfo"⟩,
  ⟨0x05, 493, false, 9, "senderNonce"⟩,
  ⟨0x06, 494, false, 9, "recipientNonce"⟩,
  ⟨0x07, 495, false, 9, "transID"⟩,
  ⟨0x08, 0, false, 9, "extensionReq"⟩,
  ⟨0x67, 0, true, 0, ""⟩,
  ⟨0x81, 0, true, 1, ""⟩,
  ⟨0x05, 0, true, 2, ""⟩,
  ⟨0x02, 0, true, 3, "tcg-attribute"⟩,
  ⟨0x01, 501, false, 4, "tcg-at-tpmManufacturer"⟩,
  ⟨0x02, 502, false, 4, "tcg-at-tpmModel"⟩,
  ⟨0x03, 503, false, 4, "tcg-at-tpmVersion"⟩,
  ⟨0x0F, 0, false, 4, "tcg-at-tpmIdLabel"⟩
]

/-- `OID_MAX`: the number of lines of `oid.txt`. -/
def oidMax : ℕ := 504

/-- `OID_NAME_DISTINGUISHER`. -/
def oidNameDistinguisher : ℕ := 6

/-- `OID_PILOT_USERID`. -/
def oidPilotUserid : ℕ := 16

/-- `OID_PILOT_DOMAIN_COMPONENT`. -/
def oidPilotDomainComponent : ℕ := 17

/-- `OID_COMMON_NAME`. -/
def oidCommonName : ℕ := 20

/-- `OID_SURNAME`. -/
def oidSurname : ℕ := 21

/-- `OID_SERIAL_NUMBER`. -/
def oidSerialNumber : ℕ := 22

/-- `OID_COUNTRY`. -/
def oidCountry : ℕ := 23

/-- `OID_LOCALITY`. -/
def oidLocality : ℕ := 24

/-- `OID_STATE_OR_PROVINCE`. -/
def oidStateOrProvince : ℕ := 25

/-- `OID_STREET_ADDRESS`. -/
def oidStreetAddress : ℕ := 26

/-- `OID_ORGANIZATION`. -/
def oidOrganization : ℕ := 27

/-- `OID_ORGANIZATION_UNIT`. -/
def oidOrganizationUnit : ℕ := 28

/-- `OID_TITLE`. -/
def oidTitle : ℕ := 29

/-- `OID_DESCRIPTION`. -/
def oidDescription : ℕ := 30

/-- `OID_POSTAL_ADDRESS`. -/
def oidPostalAddress : ℕ := 31

/-- `OID_POSTAL_CODE`. -/
def oidPostalCode : ℕ := 32

/-- `OID_NAME`. -/
def oidName : ℕ := 34

/-- `OID_GIVEN_NAME`. -/
def oidGivenName : ℕ := 35

/-- `OID_INITIALS`. -/
def oidInitials : ℕ := 36

/-- `OID_UNIQUE_IDENTIFIER`. -/
def oidUniqueIdentifier : ℕ := 37

/-- `OID_DN_QUALIFIER`. -/
def oidDnQualifier : ℕ := 38

/-- `OID_DMD_NAME`. -/
def oidDmdName : ℕ := 39

/-- `OID_PSEUDONYM`. -/
def oidPseudonym : ℕ := 40

/-- `OID_EMAIL_ADDRESS`. -/
def oidEmailAddress : ℕ := 120

/-- `OID_UNSTRUCTURED_NAME`. -/
def oidUnstructuredName : ℕ := 121

/-- `OID_UNSTRUCTURED_ADDRESS`. -/
def oidUnstructuredAddress : ℕ := 127

/-- `OID_TCGID`. -/
def oidTcgid : ℕ := 250

/-- `OID_EMPLOYEE_NUMBER`. -/
def oidEmployeeNumber : ℕ := 483

/-- `oid_names[n]`; the callers stay below `OID_MAX`. -/
def oidAt (n : ℕ) : OidT := oidNames.getD n ⟨0, 0, false, 0, ""⟩

/-- The loop of `asn1_known_oid` from entry `oid` on. Every turn moves to a later entry
(`oid + 1` or `next`), so `OID_MAX` turns are enough. -/
def knownOidLoop : ℕ → ℕ → List UInt8 → Option ℕ
  | 0, _, _ => none
  | fuel + 1, oid, b :: object =>
    if (oidAt oid).octet = b then
      -- found the terminal symbol, or advance to the next octet one level down
      if object = [] ∨ (oidAt oid).down = false then some oid else knownOidLoop fuel (oid + 1) object
    else if (oidAt oid).next ≠ 0 then knownOidLoop fuel (oidAt oid).next (b :: object)
    else none
  | _ + 1, _, [] => none

/-- `asn1_known_oid`: the entry the contents of an OID lead to, `none` for
`OID_UNKNOWN`. -/
def asn1KnownOid (object : List UInt8) : Option ℕ := knownOidLoop oidMax 0 object

/-- One turn of the `do`-loop of `asn1_build_known_oid`, on the entries from `n` down:
with `i` octets still to write, an entry at level `i` or deeper is passed over, and one
above it gives the octet in front of those written. -/
def buildKnownOidStep (s : ℕ × List UInt8) (e : OidT) : ℕ × List UInt8 :=
  if s.1 = 0 ∨ e.level ≥ s.1 then s else (s.1 - 1, e.octet :: s.2)

/-- The octets `asn1_build_known_oid` writes for entry `n`, one per level from the first
level down to the entry's own. -/
def oidOctets (n : ℕ) : List UInt8 :=
  ((oidNames.take (n + 1)).reverse.foldl buildKnownOidStep ((oidAt n).level + 1, [])).2

/-- `asn1_build_known_oid`: the OID object of entry `n`, or `chunk_empty` past the
table. -/
def asn1BuildKnownOid (n : ℕ) : List UInt8 :=
  if n ≥ oidMax then []
  else asn1Oid :: UInt8.ofNat ((oidAt n).level + 1) :: oidOctets n

example : asn1BuildKnownOid oidCommonName = [0x06, 3, 0x55, 0x04, 0x03] := by decide

example : asn1KnownOid [0x55, 0x04, 0x03] = some oidCommonName := by decide

end VpnClient.Identity
