import HaclStar.Lib.Endianness
import HaclStar.Lib.Keystream
import HaclStar.Lib.Memory
import HaclStar.Lib.Stack
import HaclStar.Lib.Words
import HaclStar.Spec.Lib
import HaclStar.Impl.Endianness
import HaclStar.Impl.StreamCipher
import HaclStar.Spec.Salsa20
import HaclStar.Impl.Salsa20
import HaclStar.Spec.Chacha20
import HaclStar.Impl.Chacha20
import HaclStar.Impl.Chacha20Vec128State
import HaclStar.Impl.Chacha20Vec128
import HaclStar.Lib.Limbs
import HaclStar.Impl.Bignum
import HaclStar.Spec.Poly1305
import HaclStar.Impl.Poly1305
import HaclStar.Impl.Policies
import HaclStar.Spec.SecretBox
import HaclStar.Api.SecretBoxZeroPad
import HaclStar.Api.SecretBox
import HaclStar.Correctness.SecretBox
import HaclStar.Spec.Curve25519
import HaclStar.Api.Box
import HaclStar.Api.NaCl
import HaclStar.Correctness.Box
import HaclStar.Correctness.Ciphers
import HaclStar.Correctness.Poly1305
import HaclStar.Spec.Chacha20Poly1305
import HaclStar.Impl.AeadPoly1305
import HaclStar.Api.Chacha20Poly1305
import HaclStar.Correctness.Aead
import HaclStar.Lib.Blocks
import HaclStar.Lib.Arrays
import HaclStar.Spec.SHA2
import HaclStar.Impl.SHA2
import HaclStar.Correctness.SHA2
import HaclStar.Spec.HMAC
import HaclStar.Impl.HMAC
import HaclStar.Correctness.HMAC
import HaclStar.Lib.FiniteFields
import HaclStar.Spec.GF128
import HaclStar.Spec.GF128Field
import HaclStar.Impl.GF128
import HaclStar.Impl.AES
import HaclStar.Impl.GCM
import HaclStar.Impl.GF128Bytes
import HaclStar.Correctness.GHash
import HaclStar.SecureApi.Indexing
import HaclStar.SecureApi.Cipher
import HaclStar.SecureApi.MAC
import HaclStar.SecureApi.UF1CMA
import HaclStar.SecureApi.Encoding
import HaclStar.SecureApi.PRF
import HaclStar.SecureApi.EnxorDexor
import HaclStar.SecureApi.AEAD
import HaclStar.Api.Auth
import HaclStar.Correctness.Auth
import HaclStar.Api.Stream
import HaclStar.Correctness.Stream
import HaclStar.Api.Sign
import HaclStar.Correctness.Sign
import HaclStar.Impl.Chacha20Rust
import HaclStar.Correctness.Chacha20Rust
import HaclStar.Tube.World
import HaclStar.Tube.Send
import HaclStar.Tube.Receive
import HaclStar.Correctness.Tube
import HaclStar.Correctness.TubeIntegrity
import HaclStar.Impl.FiveLimbs
import HaclStar.Impl.Poly1305Word32
import HaclStar.Impl.Poly1305Experimental
import HaclStar.Correctness.Poly1305Word32
import HaclStar.Correctness.MacInput
import HaclStar.Correctness.CounterMode
import HaclStar.Spec.SHA2Generic
import HaclStar.Correctness.SHA2Padding
import HaclStar.Spec.HMACGeneric
import HaclStar.Correctness.HMACWhole
import HaclStar.Lib.Primality
import HaclStar.Spec.Field25519
import HaclStar.Lib.Edwards
import HaclStar.Spec.Ed25519
import HaclStar.Spec.Ed25519Group
import HaclStar.Impl.FiveLimbsReduce
import HaclStar.Correctness.Ed25519Group
import HaclStar.Impl.Bignum25519
import HaclStar.Impl.Ed25519Ladder
import HaclStar.Correctness.Ed25519Ladder
import HaclStar.Lib.Checked
import HaclStar.Impl.FiveLimbsChecked
import HaclStar.Impl.Bignum25519Checked
import HaclStar.Impl.Ed25519Checked
import HaclStar.Correctness.Ed25519Bounds
import HaclStar.Impl.BignumChecked
import HaclStar.Correctness.Poly1305Limbs
import HaclStar.Correctness.MacEncoding
import HaclStar.Correctness.GF128
import HaclStar.Correctness.CounterModeLaws
import HaclStar.Impl.HMACPads
import HaclStar.SecureApi.HMAC
import HaclStar.Correctness.HMACAgile
import HaclStar.Spec.HKDF
import HaclStar.SecureApi.HKDF
import HaclStar.Correctness.HKDF
import HaclStar.Impl.HKDFExperimental
import HaclStar.Correctness.HKDFExperimental
import HaclStar.Impl.AESInverse
import HaclStar.Correctness.AES
import HaclStar.Correctness.Accumulate
import HaclStar.Correctness.TubeNonces
import HaclStar.Correctness.TubeStatus
import HaclStar.Tube.PaddedFile
import HaclStar.Correctness.PaddedFile
import HaclStar.SecureApi.Quic
import HaclStar.Correctness.QuicLabel
import HaclStar.SecureApi.AEADReal
import HaclStar.SecureApi.Bytes
import HaclStar.SecureApi.QuicPacket
import HaclStar.Correctness.QuicPacket
import HaclStar.Correctness.SecureAead
import HaclStar.Correctness.Chacha20Wide
import HaclStar.Impl.Format25519
import HaclStar.Correctness.Format25519
import HaclStar.Correctness.Curve25519
import HaclStar.Correctness.Curve25519Bounds
import HaclStar.Spec.Curve25519Group
import HaclStar.Correctness.MontgomeryLadder
import HaclStar.Correctness.DiffieHellman
import HaclStar.Impl.Crecip
import HaclStar.Correctness.Crecip
import HaclStar.Correctness.Policies
import HaclStar.SecureApi.BufferCodecs
import HaclStar.Correctness.Codecs
import HaclStar.Lib.BinaryPolynomials
import HaclStar.Spec.GaloisField
import HaclStar.Correctness.GaloisField
import HaclStar.Impl.Kummer
import HaclStar.Correctness.Kummer
import HaclStar.Impl.UInt32x4N
import HaclStar.Impl.Chacha20Vec
import HaclStar.Impl.Chacha20Vec2
import HaclStar.Correctness.Chacha20Bundles
import HaclStar.Lib.Barrett
import HaclStar.Spec.Ed25519Sign
import HaclStar.Impl.BignumQ
import HaclStar.Correctness.BignumQ
import HaclStar.Lib.SquareRoots
import HaclStar.Spec.Ed25519Encoding
import HaclStar.Impl.Ed25519Encoding
import HaclStar.Correctness.Ed25519Encoding
import HaclStar.Spec.Ed25519Order
import HaclStar.Correctness.Ed25519Signatures
import HaclStar.Impl.Ed25519BasePoint
import HaclStar.Impl.Ed25519Verify
import HaclStar.Correctness.Ed25519BasePoint
